import WebPipe.Lemmas.Steps
import WebPipe.Parser.Program
import WebPipe.Theorems.ConfigRoundTrip

/-!
# How much the declarations take

Every parser of a top-level element takes some text when it succeeds, so the loops over them, and those inside tests, end.
-/

namespace WebPipe
namespace Parser

open Nom

theorem eats_takeTill1 (stop : Char → Bool) : Eats (takeTill1 stop) := (eats_takeWhile1 _).bind fun _ => suffix_pure _

/-- A keyword and the blanks after it. -/
theorem eats_word {t : String} (ht : t.toList ≠ []) : Eats (word t) := (eats_tag ht).bind fun _ => suffix_multispace0.bind fun _ => suffix_pure _

theorem suffix_word (t : String) : Suffix (word t) := (suffix_tag t).bind fun _ => suffix_multispace0.bind fun _ => suffix_pure _

theorem eats_parseMultilineString : Eats parseMultilineString := eats_between _

/-- A quoted text has its quotation marks at least. -/
theorem eats_quotedText : Eats quotedText := eats_parseMultilineString.alt (eats_between _)

theorem suffix_lineValue : Suffix lineValue := eats_parseMultilineString.suffix.alt ((eats_between _).suffix.alt (eats_takeTill1 _).suffix)

theorem eats_parseMethod : Eats parseMethod :=
  (eats_tag (by decide)).alt ((eats_tag (by decide)).alt ((eats_tag (by decide)).alt (eats_tag (by decide))))

/-! ## Conditions -/

/-- A condition on calls leaves an end of the text. -/
theorem suffix_callCondition (conditionType : ConditionType) : Suffix (callCondition conditionType) :=
  ((suffix_tag _).alt ((suffix_tag _).alt (suffix_tag _))).bind fun _ => (eats_takeWhile1 _).suffix.bind fun _ =>
    eats_parseIdentifier.suffix.bind fun _ => suffix_multispace0.bind fun _ => ((suffix_tag _).alt (suffix_tag _)).bind fun _ =>
      suffix_multispace0.bind fun _ => suffix_lineValue.bind fun _ => suffix_pure _

theorem suffix_selectorOperation (conditionType : ConditionType) (selector operation : String) :
    Suffix (selectorOperation conditionType selector operation) := by
  unfold selectorOperation
  split
  · exact suffix_pure _
  · split
    · exact (suffix_word _).bind fun _ => (suffix_tag _).bind fun _ => suffix_pure _
    · split
      · exact (eats_takeTill1 _).suffix.bind fun _ => suffix_multispace0.bind fun _ => suffix_lineValue.bind fun _ => suffix_pure _
      · split
        · exact (eats_takeTill1 _).suffix.bind fun _ => (eats_takeTill1 _).suffix.bind fun _ => suffix_pure _
        · split
          · exact eats_quotedText.suffix.bind fun _ => suffix_multispace0.bind fun _ => (eats_takeTill1 _).suffix.bind fun _ =>
              suffix_lineValue.bind fun _ => suffix_pure _
          · exact suffix_abort

/-- A condition on a selector leaves an end of the text. -/
theorem suffix_selectorCondition (conditionType : ConditionType) : Suffix (selectorCondition conditionType) :=
  eats_quotedText.suffix.bind fun _ => suffix_multispace0.bind fun _ => (eats_takeTill1 _).suffix.bind fun _ =>
    suffix_multispace0.bind fun _ => suffix_selectorOperation _ _ _

theorem suffix_conditionValue : Suffix conditionValue :=
  eats_parseMultilineString.suffix.alt (((eats_between _).suffix.bind fun _ => suffix_pure _).alt (eats_takeTill1 _).suffix)

theorem suffix_conditionHeader (field : String) : Suffix (conditionHeader field) := by
  unfold conditionHeader
  split
  · exact eats_quotedText.suffix.bind fun _ => suffix_multispace0.bind fun _ => suffix_pure _
  · exact suffix_pure _

theorem suffix_conditionJq (headerName : Option String) : Suffix (conditionJq headerName) := by
  unfold conditionJq
  split
  · exact eats_parseMultilineString.suffix.opt
  · exact suffix_pure _

/-- A condition on a field leaves an end of the text. -/
theorem suffix_fieldCondition (conditionType : ConditionType) (field : String) : Suffix (fieldCondition conditionType field) :=
  (suffix_conditionHeader _).bind fun _ => (suffix_conditionJq _).bind fun _ => suffix_multispace0.bind fun _ =>
    (eats_takeTill1 _).suffix.bind fun _ => suffix_multispace0.bind fun _ => suffix_conditionValue.bind fun _ => suffix_pure _

/-- Every condition leaves an end of the text. -/
theorem suffix_parseCondition : Suffix parseCondition := by
  refine suffix_multispace0.bind fun _ => ((suffix_tag _).alt (suffix_tag _)).bind fun _ => suffix_multispace0.bind fun _ =>
    (eats_takeTill1 _).suffix.bind fun field => suffix_multispace0.bind fun _ => ?_
  split
  · exact suffix_callCondition _
  · split
    · exact suffix_selectorCondition _
    · exact suffix_fieldCondition _ _

/-! ## Tests -/

/-- So does what a test does. -/
theorem suffix_parseWhen : Suffix parseWhen := by
  refine Suffix.alt ?_ (Suffix.alt ?_ ?_)
  · exact (suffix_word _).bind fun _ => eats_parseMethod.suffix.bind fun _ => suffix_multispace0.bind fun _ =>
      (eats_takeTill1 _).suffix.bind fun _ => suffix_pure _
  · exact (suffix_word _).bind fun _ => (suffix_word _).bind fun _ => eats_parseIdentifier.suffix.bind fun _ => suffix_pure _
  · exact (suffix_word _).bind fun _ => (suffix_word _).bind fun _ => eats_parseIdentifier.suffix.bind fun _ =>
      suffix_multispace0.bind fun _ => eats_parseIdentifier.suffix.bind fun _ => suffix_pure _

theorem suffix_mockTarget : Suffix mockTarget := by
  have hnamed : ∀ keyword, Suffix (namedTarget keyword) := fun _ =>
    (eats_takeWhile1 _).suffix.bind fun _ => eats_parseIdentifier.suffix.bind fun _ => suffix_pure _
  exact (suffix_tag _).ifOk (fun _ => hnamed _) ((suffix_tag _).ifOk (fun _ => hnamed _)
    ((suffix_tag _).ifOk (fun _ => hnamed _) (eats_takeTill1 _).suffix))

/-- A mock takes its keyword at least. -/
theorem eats_mockAfter {start : String} (h : start.toList ≠ []) : Eats (mockAfter start) :=
  suffix_multispace0.bind_eats fun _ => (eats_word h).bind fun _ => (suffix_word _).bind fun _ => suffix_mockTarget.bind fun _ =>
    suffix_multispace0.bind fun _ => (suffix_word _).bind fun _ => eats_parseMultilineString.suffix.bind fun _ =>
      suffix_multispace0.bind fun _ => suffix_pure _

theorem eats_parseMock : Eats parseMock := eats_mockAfter (by decide)

theorem eats_parseAndMock : Eats parseAndMock := eats_mockAfter (by decide)

theorem suffix_letValue : Suffix letValue := by
  refine Suffix.alt (eats_parseMultilineString.suffix.bind fun _ => suffix_pure _)
    (Suffix.alt ((eats_between _).suffix.bind fun _ => suffix_pure _)
      (Suffix.alt ((suffix_tag _).bind fun _ => suffix_pure _)
        (Suffix.alt (((suffix_tag _).alt (suffix_tag _)).bind fun _ => suffix_pure _)
          (Suffix.alt (Suffix.bind (Eats.suffix (Eats.recognize ?_)) fun _ => suffix_pure _)
            ((eats_takeWhile1 _).suffix.bind fun _ => suffix_pure _)))))
  exact (eats_takeWhile1 _).bind fun _ => (eats_char _).suffix.bind fun _ => (eats_takeWhile1 _).suffix

/-- So does a binding. -/
theorem eats_parseLetBinding : Eats parseLetBinding :=
  (eats_word (by decide)).bind fun _ => eats_parseIdentifier.suffix.bind fun _ => suffix_multispace0.bind fun _ =>
    (eats_char _).suffix.bind fun _ => suffix_multispace0.bind fun _ => suffix_letValue.bind fun _ => suffix_pure _

/-- So does a value of a request. -/
theorem eats_withValue : Eats withValue :=
  (eats_word (by decide)).bind fun _ => ((suffix_tag _).alt ((suffix_tag _).alt ((suffix_tag _).alt (suffix_tag _)))).bind fun _ =>
    suffix_multispace0.bind fun _ => eats_parseMultilineString.suffix.bind fun _ => suffix_multispace0.bind fun _ => suffix_pure _

theorem eats_andAre (name : String) : Eats (andAre name) :=
  (eats_word (by decide)).bind fun _ => (suffix_word _).bind fun _ => (suffix_word _).bind fun _ =>
    eats_parseMultilineString.suffix.bind fun _ => suffix_multispace0.bind fun _ => suffix_pure _

theorem eats_parseAndStdinClause : Eats parseAndStdinClause :=
  (eats_word (by decide)).bind fun _ => (suffix_word _).bind fun _ => (suffix_word _).bind fun _ => eats_quotedText.suffix.bind fun _ =>
    suffix_multispace0.bind fun _ => suffix_pure _

theorem eats_nextWithClause (first : Bool) : Eats (nextWithClause first) := by
  unfold nextWithClause
  split
  · exact eats_withValue
  · exact (eats_word (by decide)).bind fun _ => eats_withValue.suffix

/-- Every clause of a test takes some text. -/
theorem eats_clause (c : Clauses) : Eats (clause c) :=
  ((eats_nextWithClause _).bind fun _ => suffix_pure _).orElse ((eats_parseAndStdinClause.bind fun _ => suffix_pure _).orElse
    (((eats_andAre _).bind fun _ => suffix_pure _).orElse ((eats_andAre _).bind fun _ => suffix_pure _)))

/-- A title takes its keyword at least. -/
theorem eats_title {keyword : String} (h : keyword.toList ≠ []) : Eats (title keyword) :=
  (eats_word h).bind fun _ => (eats_char _).suffix.bind fun _ => (suffix_takeUntil _).bind fun _ => (eats_char _).suffix.bind fun _ =>
    suffix_pure _

theorem eats_letItem (bs : List LetBinding) : Eats (letItem bs) := eats_parseLetBinding.bind fun _ => suffix_pure _

section Source

variable {source : List Char}

/-- A test takes some text. -/
theorem eats_parseIt : Eats (parseIt source) :=
  suffix_skipWsAndComments.bind_eats fun _ => suffix_rest.bind_eats fun _ => (eats_title (by decide)).bind fun _ =>
    suffix_skipWsAndComments.bind fun _ => eats_parseMock.suffix.many0.bind fun _ =>
      ((suffix_pure ()).whileOk (fun bs => (eats_letItem bs).suffix) suffix_skipWsAndComments _).bind fun _ => (suffix_tag _).bind fun _ =>
        suffix_skipWsAndComments.bind fun _ => suffix_parseWhen.bind fun _ => suffix_skipWsAndComments.bind fun _ =>
          ((suffix_pure ()).whileOk (fun c => (eats_clause c).suffix) (suffix_pure ()) _).bind fun _ =>
            suffix_skipWsAndComments.bind fun _ => eats_parseAndMock.suffix.many0.bind fun _ =>
              suffix_skipWsAndComments.bind fun _ => suffix_parseCondition.many0.bind fun _ => suffix_pure _

/-- Whatever a block takes in is some text, so that its loop over them ends. -/
theorem eats_describeItem (d : Describe) : Eats (describeItem source d) :=
  (eats_parseLetBinding.bind fun _ => suffix_pure _).orElse ((eats_parseMock.bind fun _ => suffix_pure _).orElse
    ((eats_parseAndMock.bind fun _ => suffix_pure _).orElse (eats_parseIt.bind fun _ => suffix_pure _)))

/-- A group of tests takes some text. -/
theorem eats_parseDescribe : Eats (parseDescribe source) :=
  suffix_skipWsAndComments.bind_eats fun _ => suffix_rest.bind_eats fun _ => (eats_title (by decide)).bind fun _ =>
    suffix_skipWsAndComments.bind fun _ =>
      Suffix.whileOk suffix_skipWsAndComments (fun d => (eats_describeItem d).suffix) (suffix_pure ()) _

/-! ## Declarations -/

section FromStr

variable {fromStr : String → Option (List String)}

theorem suffix_pipelineValue : Suffix (pipelineValue source fromStr) :=
  suffix_multispace0.bind fun _ => (eats_char _).suffix.bind fun _ => suffix_multispace0.bind fun _ => suffix_parsePipeline.bind fun _ =>
    suffix_multispace0.bind fun _ => suffix_pure _

/-- A named pipeline takes its keyword at least. -/
theorem eats_namedPipeline {keyword : String} (h : keyword.toList ≠ []) : Eats (namedPipeline source fromStr keyword) :=
  (eats_word h).bind fun _ => eats_parseIdentifier.suffix.bind fun _ => suffix_pipelineValue.bind fun _ => suffix_pure _

theorem eats_parseTypeResolver : Eats (parseTypeResolver source fromStr) :=
  (eats_word (by decide)).bind fun _ => eats_parseIdentifier.suffix.bind fun _ => (eats_char _).suffix.bind fun _ =>
    eats_parseIdentifier.suffix.bind fun _ => suffix_pipelineValue.bind fun _ => suffix_pure _

theorem eats_parseFeatureFlags : Eats (parseFeatureFlags source fromStr) := (eats_tag (by decide)).bind fun _ => suffix_pipelineValue

theorem suffix_parsePipelineRef : Suffix (parsePipelineRef source fromStr) :=
  Suffix.alt (suffix_parsePipeline.bind fun _ => suffix_pure _) (Suffix.bind (suffix_multispace0.bind fun _ => (suffix_word _).bind fun _ =>
    (suffix_word _).bind fun _ => eats_parseIdentifier.suffix) fun _ => suffix_pure _)

/-- A route takes its method at least. -/
theorem eats_parseRoute : Eats (parseRoute source fromStr) :=
  eats_parseMethod.bind fun _ => suffix_multispace0.bind fun _ => (eats_takeTill1 _).suffix.bind fun _ => suffix_multispace0.bind fun _ =>
    suffix_parsePipelineRef.bind fun _ => suffix_multispace0.bind fun _ => suffix_pure _

end FromStr
end Source

/-- A config takes its keyword at least. -/
theorem eats_parseConfig : Eats parseConfig :=
  (eats_tag (by decide)).bind fun _ => suffix_multispace0.bind fun _ => eats_parseIdentifier.suffix.bind fun _ =>
    suffix_multispace0.bind fun _ => (eats_char _).suffix.bind fun _ => suffix_multispace0.bind fun _ =>
      eats_parseConfigProperty.suffix.many0.bind fun _ => suffix_multispace0.bind fun _ => (eats_char _).suffix.bind fun _ =>
        suffix_multispace0.bind fun _ => suffix_pure _

theorem eats_parseGraphqlSchema : Eats parseGraphqlSchema :=
  (eats_tag (by decide)).bind fun _ => suffix_multispace0.bind fun _ => (eats_char _).suffix.bind fun _ =>
    suffix_multispace0.bind fun _ => eats_parseMultilineString.suffix.bind fun _ => suffix_multispace0.bind fun _ => suffix_pure _

/-- An import takes its keyword at least. -/
theorem eats_parseImport : Eats parseImport :=
  (eats_word (by decide)).bind fun _ => (eats_between _).suffix.bind fun _ => suffix_multispace0.bind fun _ => (suffix_word _).bind fun _ =>
    eats_parseIdentifier.suffix.bind fun _ => suffix_multispace0.bind fun _ => suffix_pure _

/-- A variable takes its type at least. -/
theorem eats_parseVariable : Eats parseVariable :=
  eats_parseIdentifier.bind fun _ => suffix_multispace0.bind fun _ => eats_parseIdentifier.suffix.bind fun _ =>
    suffix_multispace0.bind fun _ => (eats_char _).suffix.bind fun _ => suffix_multispace0.bind fun _ =>
      eats_parseMultilineString.suffix.bind fun _ => suffix_multispace0.bind fun _ => suffix_pure _

theorem suffix_addImport (p : SourceProgram) (i : Import) : Suffix (addImport p i) := by
  unfold addImport
  split
  · exact suffix_abort
  · exact suffix_pure _

theorem eats_fail {α : Type} : Eats (fail : Parser α) := nofun

/-- Each of the eleven top-level elements takes some text, and so does the line that is skipped. -/
theorem eats_element {source : List Char} {fromStr : String → Option (List String)} (p : SourceProgram) :
    Eats (element source fromStr p) :=
  have h {α : Type} {q : Parser α} {f : α → SourceProgram} {r : Parser SourceProgram} (hq : Eats q) (hr : Eats r) :
      Eats (ifOk q (fun a => pure (f a)) r) := hq.ifOk (fun _ => suffix_pure _) hr
  h eats_parseConfig <| eats_parseImport.ifOk (suffix_addImport p) <| h eats_parseFeatureFlags <| h eats_parseGraphqlSchema <|
    h ((eats_namedPipeline (by decide)).bind fun _ => suffix_pure _) <| h ((eats_namedPipeline (by decide)).bind fun _ => suffix_pure _) <|
    h eats_parseTypeResolver <| h ((eats_namedPipeline (by decide)).bind fun _ => suffix_pure _) <| h eats_parseVariable <|
    h eats_parseRoute <| h eats_parseDescribe <| h (eats_takeTill1 _) eats_fail

/-- A line can be skipped wherever blanks and comments have been. -/
theorem takeTill1_of_notBlank {l : List Char} (hl : l ≠ []) (h : NotBlank l) : ∃ s r, takeTill1 (· = '\n') l = .ok (s, r) := by
  obtain ⟨c, l, rfl⟩ := List.exists_cons_of_ne_nil hl
  have hc : c ≠ '\n' := by
    rintro rfl
    exact absurd (h '\n' l rfl).1 (by decide)
  obtain ⟨s, r, hs⟩ : ∃ s r, takeWhile1 (fun c => !decide (c = '\n')) (c :: l) = .ok (s, r) := by
    simp [takeWhile1, hc]
  exact ⟨_, r, by rw [takeTill1, bind_of_ok hs]; rfl⟩

/-- Where some text is left, an element is read or the program is refused for good. -/
theorem element_ne_error {source : List Char} {fromStr : String → Option (List String)} (p : SourceProgram) {l : List Char} (hl : l ≠ [])
    (h : NotBlank l) : element source fromStr p l ≠ .error .error := by
  obtain ⟨s, r, hline⟩ := takeTill1_of_notBlank hl h
  have hadd : ∀ i r, addImport p i r ≠ .error .error := by
    intro i r
    unfold addImport
    split <;> nofun
  unfold element
  refine ifOk_ne_error nofun <| ifOk_ne_error hadd <| ifOk_ne_error nofun <| ifOk_ne_error nofun <| ifOk_ne_error nofun <|
    ifOk_ne_error nofun <| ifOk_ne_error nofun <| ifOk_ne_error nofun <| ifOk_ne_error nofun <| ifOk_ne_error nofun <|
    ifOk_ne_error nofun ?_
  rw [ifOk, hline]
  nofun

end Parser
end WebPipe
