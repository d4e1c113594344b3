import Mathlib.Data.List.DropRight
import WebPipe.Middleware.Assert

/-!
# The schema parser finishes

Every rule leaves an end of its text, and what it calls stands further on: the cost of a call, three for each character that is
left, falls from a rule to the rules it calls. So no parse runs out of fuel, and a schema that is accepted is the whole text.
-/

namespace WebPipe

/-! ## What a rule leaves -/

/-- A result leaves an end of the text, and at least so many characters less; a failure is one of the text. -/
def Takes {α : Type} (count : ℕ) (l : List Char) (result : Except ParseFailure (α × List Char)) : Prop :=
  match result with
  | .ok (_, rest) => rest <:+ l ∧ rest.length + count ≤ l.length
  | .error failure => failure ≠ .outOfFuel

section Takes

variable {α β : Type} {count : ℕ} {l : List Char}

/-- A result that leaves an end of the text, short enough, takes as much as it should. -/
theorem takes_ok {a : α} {rest : List Char} (h : rest <:+ l) (hcount : rest.length + count ≤ l.length) :
    Takes count l (.ok (a, rest)) := ⟨h, hcount⟩

@[simp] theorem takes_reject {text : String} : Takes count l (reject text : Except ParseFailure (α × List Char)) := by
  simp [Takes, reject]

/-- What is made of the result does not change what is taken. -/
theorem Takes.map {result : Except ParseFailure (α × List Char)} (h : Takes count l result) (f : α → β) :
    Takes count l (result.map fun p => (f p.1, p.2)) := by
  cases result with
  | ok p => exact h
  | error failure => exact h

/-- A result for an end of the text is one for the text. -/
theorem Takes.of_suffix {rest : List Char} {taken : ℕ} {result : Except ParseFailure (α × List Char)} (h : Takes count rest result)
    (hrest : rest <:+ l) (htaken : rest.length + taken ≤ l.length) : Takes (count + taken) l result := by
  cases result with
  | ok p =>
    obtain ⟨hsuffix, hcount⟩ := h
    exact ⟨hsuffix.trans hrest, by omega⟩
  | error failure => exact h

/-- What takes some characters takes fewer. -/
theorem Takes.weaken {fewer : ℕ} {result : Except ParseFailure (α × List Char)} (h : Takes count l result) (hle : fewer ≤ count) :
    Takes fewer l result := by
  cases result with
  | ok p =>
    obtain ⟨hsuffix, hcount⟩ := h
    exact ⟨hsuffix, by omega⟩
  | error failure => exact h

/-- What follows a rule works on what the rule leaves. -/
theorem Takes.bind {result : Except ParseFailure (α × List Char)} {next : α × List Char → Except ParseFailure (β × List Char)}
    {more : ℕ} (h : Takes count l result)
    (hnext : ∀ a rest, rest <:+ l → rest.length + count ≤ l.length → Takes more rest (next (a, rest))) :
    Takes (more + count) l (result >>= next) := by
  cases result with
  | ok p =>
    obtain ⟨hsuffix, hcount⟩ := h
    exact (hnext p.1 p.2 hsuffix hcount).of_suffix hsuffix hcount
  | error failure => exact h

end Takes

/-! ## Words -/

section Words

variable {l rest : List Char}

theorem skipWs_suffix (l : List Char) : skipWs l <:+ l := List.dropWhile_suffix _

/-- A character is eaten from the front. -/
theorem eat_eq_some {c : Char} (h : eat c l = some rest) : l = c :: rest := by
  cases l with
  | nil => cases h
  | cons d l =>
    simp only [eat] at h
    by_cases hd : d = c
    · rw [if_pos hd] at h
      cases h
      rw [hd]
    · rw [if_neg hd] at h
      cases h

/-- A character eaten behind white space. -/
theorem eat_skipWs {c : Char} (h : eat c (skipWs l) = some rest) : rest <:+ l ∧ rest.length + 1 ≤ l.length := by
  have hsuffix := skipWs_suffix l
  rw [eat_eq_some h] at hsuffix
  exact ⟨(List.suffix_cons c rest).trans hsuffix, by simpa using hsuffix.length_le⟩

/-- An expected character is taken, or the text is refused. -/
theorem expect_cases {c : Char} :
    (∃ rest, expect c l = .ok rest ∧ rest <:+ l ∧ rest.length + 1 ≤ l.length) ∨ ∃ text, expect c l = reject text := by
  unfold expect
  cases h : eat c (skipWs l) with
  | some rest => exact Or.inl ⟨rest, rfl, eat_skipWs h⟩
  | none => exact Or.inr ⟨_, rfl⟩

/-- What follows an expected character works on what stands behind it. -/
theorem takes_expect {α : Type} {c : Char} {next : List Char → Except ParseFailure (α × List Char)} {count : ℕ}
    (hnext : ∀ rest, rest <:+ l → rest.length + 1 ≤ l.length → Takes count rest (next rest)) :
    Takes (count + 1) l (expect c l >>= next) := by
  rcases @expect_cases l c with ⟨rest, hrest, hsuffix, hlength⟩ | ⟨text, htext⟩
  · rw [hrest]
    exact (hnext rest hsuffix hlength).of_suffix hsuffix hlength
  · rw [htext]
    exact takes_reject

theorem skipWsAndCommasLoop_suffix (n : ℕ) (l : List Char) : skipWsAndCommasLoop n l <:+ l := by
  induction n generalizing l with
  | zero => exact skipWs_suffix l
  | succ n ih =>
    unfold skipWsAndCommasLoop
    split
    · rename_i rest h
      exact (ih rest).trans (eat_skipWs h).1
    · exact skipWs_suffix l

/-- Skipping blanks and commas leaves an end of the text. -/
theorem skipWsAndCommas_suffix (l : List Char) : skipWsAndCommas l <:+ l := skipWsAndCommasLoop_suffix _ l

/-- The loop over commas ends where no comma follows. -/
theorem eat_skipWsAndCommas (l : List Char) : eat ',' (skipWs (skipWsAndCommas l)) = none := by
  have hloop : ∀ n (l : List Char), l.length ≤ n → eat ',' (skipWs (skipWsAndCommasLoop n l)) = none := by
    intro n
    induction n with
    | zero =>
      intro l hl
      rw [List.length_eq_zero_iff.mp (Nat.le_zero.mp hl)]
      rfl
    | succ n ih =>
      intro l hl
      unfold skipWsAndCommasLoop
      split
      · rename_i rest h
        have hlength := (eat_skipWs h).2
        exact ih rest (by omega)
      · rename_i h
        rw [skipWs, skipWs, List.dropWhile_idempotent]
        exact h
  exact hloop l.length l (le_refl _)

/-- An ellipsis takes three characters. -/
theorem consumeEllipsis_eq_some (h : consumeEllipsis l = some rest) : rest <:+ l ∧ rest.length + 3 ≤ l.length := by
  unfold consumeEllipsis at h
  split at h
  · rename_i hprefix
    cases h
    have hlength := (List.isPrefixOf_iff_prefix.mp hprefix).length_le
    refine ⟨List.drop_suffix 3 l, ?_⟩
    rw [List.length_drop]
    have : "...".toList.length = 3 := rfl
    omega
  · cases h

/-- Every character of a string takes one of the text. -/
theorem takes_parseStringChars (out : List Char) : Takes 1 l (parseStringChars out l) := by
  fun_induction parseStringChars out l with
  | case1 => simp
  | case2 out l => exact takes_ok (List.suffix_cons _ _) (by simp)
  | case3 => simp
  | case4 out escaped l c hunescape _ ih =>
    exact (ih.of_suffix ((List.suffix_cons _ _).trans (List.suffix_cons _ _)) (Nat.le_refl (l.length + 2))).weaken (by omega)
  | case5 => simp
  | case6 out c l hquote hescape ih =>
    exact (ih.of_suffix (List.suffix_cons _ _) (Nat.le_refl (l.length + 1))).weaken (by omega)

theorem takes_parseString : Takes 1 l (parseString l) := by
  unfold parseString
  exact (takes_expect fun rest _ _ => takes_parseStringChars []).weaken (by omega)

/-- An identifier leaves an end of the text. -/
theorem parseIdentifier_suffix (c : Char) (l : List Char) : (parseIdentifier (c :: l)).2 <:+ l := List.dropWhile_suffix _

theorem takes_parseKey : Takes 1 l (parseKey l) := by
  unfold parseKey
  have hsuffix := skipWs_suffix l
  split
  · simp
  · rename_i c rest hl
    rw [hl] at hsuffix
    split
    · exact (takes_parseString.of_suffix hsuffix (Nat.add_le_add_right hsuffix.length_le 0)).weaken (by omega)
    · split
      · have hrest := parseIdentifier_suffix c rest
        have hlength := hsuffix.length_le
        have hlength' : (parseIdentifier (c :: rest)).2.length ≤ rest.length := hrest.length_le
        rw [List.length_cons] at hlength
        have hcount : (parseIdentifier (c :: rest)).2.length + 1 ≤ l.length := by omega
        exact takes_ok (hrest.trans ((List.suffix_cons c rest).trans hsuffix)) hcount
      · simp

/-- A bound never runs out of fuel. -/
theorem parseBound_ne (raw bound : List Char) : parseBound raw bound ≠ .error .outOfFuel := by
  unfold parseBound reject
  split
  · simp
  · split <;> simp

/-- The text of a range is read or rejected. -/
theorem parseRangeText_ne (raw : List Char) : parseRangeText raw ≠ .error .outOfFuel := by
  unfold parseRangeText
  split
  · rename_i single _
    split
    · simp [reject]
    · cases h : parseBound raw single with
      | ok value => simp [Except.map]
      | error failure =>
        rintro ⟨⟩
        exact parseBound_ne raw single h
  · rename_i min max _
    cases hmin : parseBound raw min with
    | error failure =>
      rintro ⟨⟩
      exact parseBound_ne raw min hmin
    | ok value =>
      cases hmax : parseBound raw max with
      | error failure =>
        rintro ⟨⟩
        exact parseBound_ne raw max hmax
      | ok value' => simp [bind, Except.bind, pure, Except.pure]
  · simp [reject]

/-- A range may be missing. -/
theorem takes_parseOptionalRange : Takes 0 l (parseOptionalRange l) := by
  unfold parseOptionalRange
  cases heat : eat '(' (skipWs l) with
  | none => exact takes_ok (skipWs_suffix l) (skipWs_suffix l).length_le
  | some inner =>
    obtain ⟨hinner, hlength⟩ := eat_skipWs heat
    have hclose : (skipWs inner).dropWhile (· ≠ ')') <:+ l :=
      (List.dropWhile_suffix _).trans ((skipWs_suffix inner).trans hinner)
    have hexpect : Takes 1 ((skipWs inner).dropWhile (· ≠ ')')) (do
        let rest ← expect ')' ((skipWs inner).dropWhile (· ≠ ')'))
        let range ← parseRangeText (Text.trimChars ((skipWs inner).takeWhile (· ≠ ')')))
        pure (range, rest)) := by
      refine takes_expect fun rest _ _ => ?_
      cases hrange : parseRangeText (Text.trimChars ((skipWs inner).takeWhile (· ≠ ')'))) with
      | ok range => exact takes_ok (List.suffix_refl rest) (le_refl _)
      | error failure =>
        rintro rfl
        exact parseRangeText_ne _ hrange
    exact (hexpect.of_suffix hclose (Nat.add_le_add_right hclose.length_le 0)).weaken (Nat.zero_le _)

theorem spanFraction_suffix (l : List Char) : (spanFraction l).2 <:+ l := by
  unfold spanFraction
  split
  · exact List.suffix_refl _
  · split
    · exact (List.dropWhile_suffix _).trans (List.suffix_cons _ _)
    · exact List.suffix_refl _

theorem spanDecimal_suffix (l : List Char) : (spanDecimal l).2 <:+ l :=
  (spanFraction_suffix _).trans (List.dropWhile_suffix _)

/-- A number takes its sign or its first digit. -/
theorem spanNumber_suffix {c : Char} (h : c = '-' ∨ Text.isDigit c = true) (l : List Char) : (spanNumber (c :: l)).2 <:+ l := by
  simp only [spanNumber]
  by_cases hsign : c = '-'
  · rw [if_pos hsign]
    exact spanDecimal_suffix l
  · rw [if_neg hsign]
    have hdigit := h.resolve_left hsign
    have hdrop : (c :: l).dropWhile Text.isDigit = l.dropWhile Text.isDigit := by simp [hdigit]
    refine (spanFraction_suffix _).trans ?_
    rw [hdrop]
    exact List.dropWhile_suffix _

/-- A result for what stands behind the first character. -/
theorem takes_ok_cons {α : Type} {a : α} {c : Char} (h : rest <:+ l) : Takes 1 (c :: l) (.ok (a, rest)) :=
  takes_ok (h.trans (List.suffix_cons c l)) (Nat.add_le_add_right h.length_le 1)

variable {parseF64 : String → Option FloatText}

/-- A number that starts as one takes a character. -/
theorem takes_parseNumberLiteral {c : Char} (h : c = '-' ∨ Text.isDigit c = true) :
    Takes 1 (c :: l) (parseNumberLiteral parseF64 (c :: l)) := by
  unfold parseNumberLiteral
  split
  · exact takes_ok_cons (spanNumber_suffix h l)
  · simp

/-- A name takes a character. -/
theorem takes_parseNamedTypeOrLiteral (c : Char) : Takes 1 (c :: l) (parseNamedTypeOrLiteral (c :: l)) := by
  have hsuffix := parseIdentifier_suffix c l
  have hrange : Takes 1 (c :: l) (parseOptionalRange (parseIdentifier (c :: l)).2) :=
    takes_parseOptionalRange.of_suffix (hsuffix.trans (List.suffix_cons c l)) (Nat.add_le_add_right hsuffix.length_le 1)
  unfold parseNamedTypeOrLiteral
  dsimp only
  repeat' split
  all_goals first | exact takes_ok_cons hsuffix | exact hrange.map fun bounds => AssertSchema.string bounds.1 bounds.2 | exact takes_reject

theorem takes_parseFieldName : Takes 1 l (parseFieldName l) := by
  unfold parseFieldName
  have hname : ∀ isOptional name l, Takes 0 l (do
      let rest ← expect ':' (skipWs l)
      pure ((name, isOptional), rest) : Except ParseFailure ((String × Bool) × List Char)) := by
    intro isOptional name l
    have hexpect : Takes 1 (skipWs l) (do
        let rest ← expect ':' (skipWs l)
        pure ((name, isOptional), rest) : Except ParseFailure ((String × Bool) × List Char)) :=
      takes_expect fun rest _ _ => takes_ok (List.suffix_refl rest) (le_refl _)
    exact (hexpect.of_suffix (skipWs_suffix l) (Nat.add_le_add_right (skipWs_suffix l).length_le 0)).weaken (Nat.zero_le _)
  refine (takes_parseKey.bind fun name l _ _ => ?_).weaken (Nat.le_refl (0 + 1))
  dsimp only
  cases heat : eat '?' (skipWs l) with
  | none => exact hname false name l
  | some rest =>
    obtain ⟨hrest, hlength⟩ := eat_skipWs heat
    exact ((hname true name rest).of_suffix hrest hlength).weaken (Nat.zero_le _)

end Words

/-! ## Rules -/

section Rules

variable {parseF64 : String → Option FloatText} {call : SchemaRule → List Char → Parsed} {l : List Char}

/-- What a rule takes at least: the loop over options can end at once. -/
def SchemaRule.least : SchemaRule → ℕ
  | .options _ => 0
  | _ => 1

/-- The calls that cost less than a rule on a text answer with an end of what they are given. -/
def CallsTake (call : SchemaRule → List Char → Parsed) (rule : SchemaRule) (l : List Char) : Prop :=
  ∀ rule' l', l' <:+ l → rule'.cost l' < rule.cost l → Takes rule'.least l' (call rule' l')

/-- A union takes what its first option takes. -/
theorem takes_parseUnion (h : CallsTake call .union l) : Takes 1 l (parseUnion call l) := by
  have hfirst : Takes 1 l (call .primary l) := h .primary l (List.suffix_refl l) (by simp [SchemaRule.cost])
  refine hfirst.bind fun first rest hrest hlength => ?_
  exact h (.options [first]) rest hrest (by simp only [SchemaRule.cost]; omega)

/-- Further options may be missing. -/
theorem takes_parseOptions {options : List AssertSchema} (h : CallsTake call (.options options) l) :
    Takes 0 l (parseOptions call options l) := by
  unfold parseOptions
  split
  · exact takes_ok (skipWs_suffix l) (skipWs_suffix l).length_le
  · rename_i rest heat
    obtain ⟨hrest, hlength⟩ := eat_skipWs heat
    have hprimary : Takes 1 rest (call .primary rest) := h .primary rest hrest (by simp only [SchemaRule.cost]; omega)
    have hloop : Takes (0 + 1) rest (call .primary rest >>= fun p => call (.options (options ++ [p.1])) p.2) := by
      refine hprimary.bind fun option rest' hrest' hlength' => ?_
      exact h (.options (options ++ [option])) rest' (hrest'.trans hrest) (by simp only [SchemaRule.cost]; omega)
    exact (hloop.of_suffix hrest hlength).weaken (Nat.zero_le _)

/-- Every primary takes a character: the cases are those of the parser, told apart by the first character. -/
theorem takes_parsePrimary (h : CallsTake call .primary l) : Takes 1 l (parsePrimary parseF64 call l) := by
  unfold parsePrimary
  have hsuffix := skipWs_suffix l
  have hfrom : ∀ {rest : List Char} {result : Parsed}, rest <:+ l → Takes 1 rest result → Takes 1 l result :=
    fun hrest hresult => (hresult.of_suffix hrest (Nat.add_le_add_right hrest.length_le 0)).weaken (Nat.le_refl _)
  split
  · simp
  · rename_i c rest hl
    rw [hl] at hsuffix
    have hrest := (List.suffix_cons c rest).trans hsuffix
    have hlength := hsuffix.length_le
    rw [List.length_cons] at hlength
    split
    · exact hfrom hrest (h (.fields []) rest hrest (by simp only [SchemaRule.cost]; omega))
    · split
      · exact hfrom hrest (h .array rest hrest (by simp only [SchemaRule.cost]; omega))
      · split
        · exact hfrom hsuffix (takes_parseString.map fun text => AssertSchema.literal (.string text))
        · split
          · rename_i hnumber
            exact hfrom hsuffix (takes_parseNumberLiteral (by simpa using hnumber))
          · split
            · exact hfrom hsuffix (takes_parseNamedTypeOrLiteral c)
            · simp

/-- The end of an object takes its brace, or what follows takes a character. -/
theorem takes_closeOr {fields : List (ObjectField AssertSchema)} {next : List Char → Parsed}
    (h : ∀ rest, rest <:+ l → Takes 1 rest (next rest)) : Takes 1 l (closeOr fields l next) := by
  unfold closeOr
  have hsuffix := skipWsAndCommas_suffix l
  split
  · rename_i rest heat
    rw [eat_eq_some heat] at hsuffix
    exact takes_ok ((List.suffix_cons _ rest).trans hsuffix) hsuffix.length_le
  · exact ((h _ hsuffix).of_suffix hsuffix (Nat.add_le_add_right hsuffix.length_le 0)).weaken (Nat.le_refl _)

/-- The fields of an object take at least the bracket that closes it. -/
theorem takes_parseFields {fields : List (ObjectField AssertSchema)} (h : CallsTake call (.fields fields) l) :
    Takes 1 l (parseFields call fields l) := by
  have hnext : ∀ fields' rest, rest <:+ l → rest.length + 1 ≤ l.length →
      Takes 1 rest (closeOr fields' rest fun l => call (.fields fields') l) := by
    intro fields' rest hrest hlength
    refine takes_closeOr fun rest' hrest' => h (.fields fields') rest' (hrest'.trans hrest) ?_
    have hlength' := hrest'.length_le
    simp only [SchemaRule.cost]
    omega
  refine takes_closeOr fun start hstart => ?_
  have hstart' := hstart.length_le
  split
  · rename_i rest hellipsis
    obtain ⟨hrest, hlength⟩ := consumeEllipsis_eq_some hellipsis
    exact ((hnext fields rest (hrest.trans hstart) (by omega)).of_suffix hrest (show rest.length + 0 ≤ start.length by omega)).weaken
      (Nat.le_refl _)
  · refine (takes_parseFieldName.bind fun name rest hrest hlength => ?_).weaken (show 1 ≤ 1 + 1 by omega)
    have hunion : Takes 1 rest (call .union rest) :=
      h .union rest (hrest.trans hstart) (by simp only [SchemaRule.cost]; omega)
    refine (hunion.bind fun schema rest' hrest' hlength' => ?_).weaken (show 1 ≤ 1 + 1 by omega)
    exact hnext _ rest' ((hrest'.trans hrest).trans hstart) (by omega)

/-- An array takes at least the bracket that opens it. -/
theorem takes_parseArray (h : CallsTake call .array l) : Takes 1 l (parseArray call l) := by
  unfold parseArray
  have hsuffix := skipWs_suffix l
  have hlength := hsuffix.length_le
  split
  · rename_i rest heat
    obtain ⟨hrest, hcount⟩ := eat_skipWs heat
    exact takes_ok hrest hcount
  · have hunion : Takes 1 (skipWs l) (call .union (skipWs l)) := h .union _ hsuffix (by simp only [SchemaRule.cost]; omega)
    have hitem : Takes (0 + 1) (skipWs l) (call .union (skipWs l) >>= fun p =>
        expect ']' (skipWsAndCommas p.2) >>= fun rest => pure (AssertSchema.array p.1, rest)) := by
      refine hunion.bind fun item rest hrest _ => ?_
      have hclose : Takes 1 (skipWsAndCommas rest) (do
          let rest ← expect ']' (skipWsAndCommas rest)
          pure (AssertSchema.array item, rest)) :=
        takes_expect fun rest _ _ => takes_ok (List.suffix_refl rest) (le_refl _)
      have hskip := skipWsAndCommas_suffix rest
      exact (hclose.of_suffix hskip (Nat.add_le_add_right hskip.length_le 0)).weaken (Nat.zero_le _)
    exact (hitem.of_suffix hsuffix (Nat.add_le_add_right hlength 0)).weaken (Nat.le_refl _)

/-- A rule calls only for less than it costs itself, and answers with an end of its text. -/
theorem takes_parseRule {rule : SchemaRule} (h : CallsTake call rule l) : Takes rule.least l (parseRule parseF64 call rule l) := by
  cases rule with
  | union => exact takes_parseUnion h
  | options options => exact takes_parseOptions h
  | primary => exact takes_parsePrimary h
  | fields fields => exact takes_parseFields h
  | array => exact takes_parseArray h

/-- With more fuel than a call costs it ends. -/
theorem takes_runRule {n : ℕ} {rule : SchemaRule} (h : rule.cost l < n) : Takes rule.least l (runRule parseF64 n rule l) := by
  induction n generalizing rule l with
  | zero => omega
  | succ n ih => exact takes_parseRule fun rule' l' _ hcost => ih (by omega)

end Rules

/-! ## The parser -/

/-- The schema parser finishes and goes forward: a rule calls only for less than it costs on its own text, on an end of it; with
the fuel of its cost each call ends and leaves an end of its text, a shorter one unless it is the end of a union; the parser never
runs out of fuel; and what it accepts is the whole input. -/
theorem assert_parser_finishes (parseF64 : String → Option FloatText) :
    (∀ call rule l, CallsTake call rule l → Takes rule.least l (parseRule parseF64 call rule l)) ∧
    (∀ n rule l, rule.cost l < n → Takes rule.least l (runRule parseF64 n rule l)) ∧
    (∀ l, eat ',' (skipWs (skipWsAndCommas l)) = none) ∧
    (∀ input, parseSchema parseF64 input ≠ .error .outOfFuel) ∧
    ∀ input schema, parseSchema parseF64 input = .ok schema → ∃ rest,
      runRule parseF64 (SchemaRule.union.cost input.toList + 1) .union input.toList = .ok (schema, rest) ∧ skipWs rest = [] := by
  refine ⟨fun _ _ _ h => takes_parseRule h, fun _ _ _ h => takes_runRule h, eat_skipWsAndCommas, ?_, ?_⟩
  · intro input
    have htakes := @takes_runRule parseF64 input.toList _ .union (Nat.lt_succ_self _)
    unfold parseSchema
    cases hrun : runRule parseF64 (SchemaRule.union.cost input.toList + 1) .union input.toList with
    | error failure =>
      rw [hrun] at htakes
      rintro ⟨⟩
      exact htakes rfl
    | ok p =>
      simp only [bind, Except.bind]
      split <;> simp [reject, pure, Except.pure]
  · intro input schema h
    unfold parseSchema at h
    cases hrun : runRule parseF64 (SchemaRule.union.cost input.toList + 1) .union input.toList with
    | error failure =>
      rw [hrun] at h
      cases h
    | ok p =>
      rw [hrun] at h
      simp only [bind, Except.bind] at h
      split at h
      · rename_i hrest
        cases h
        exact ⟨p.2, rfl, hrest⟩
      · cases h

end WebPipe
