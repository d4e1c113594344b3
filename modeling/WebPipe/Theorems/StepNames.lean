import WebPipe.Lemmas.Steps

/-!
# Keywords and the names of steps

The parser of steps tries the control flow steps first, and matches their keywords as text. So a name that starts with a keyword may be
taken for it; `foreach` alone asks for a blank after the keyword.
-/

namespace WebPipe
namespace Parser

open Nom

variable {source : List Char} {fromStr : String → Option (List String)}

/-! ## Keywords -/

/-- A word is a prefix of a text that starts with an identifier exactly when it is one of the identifier. -/
theorem prefix_ident_iff {word n tail : List Char} (hword : ∀ c ∈ word, isIdentRest c = true) (htail : EndsIdent tail) :
    word <+: n ++ tail ↔ word <+: n := by
  refine ⟨fun h => ?_, fun h => h.trans (List.prefix_append ..)⟩
  rcases List.prefix_or_prefix_of_prefix h (List.prefix_append n tail) with h | ⟨more, rfl⟩
  · exact h
  · cases more with
    | nil => simp
    | cons c more =>
      obtain ⟨l, hl⟩ := h
      rw [List.append_assoc, List.append_cancel_left_eq] at hl
      have := htail c _ hl.symm
      rw [hword c (by simp)] at this
      cases this

/-- What is left of an identifier after a proper prefix starts with no blank. -/
theorem notBlank_of_ident {l : List Char} (h : l ≠ []) (hl : ∀ c ∈ l, isIdentRest c = true) (tail : List Char) : NotBlank (l ++ tail) := by
  obtain ⟨c, l', rfl⟩ := List.exists_cons_of_ne_nil h
  have hc := hl c List.mem_cons_self
  refine notBlank_cons (not_multispace_of_rest hc) ?_ _
  rintro rfl
  exact absurd hc (by decide)

/-- All blanks and comments of a text can be passed, from wherever in it. -/
def Passable (text : List Char) : Prop := ∀ l, l <:+ text → ∃ r, skipWsAndComments l = .ok ((), r)

/-- The ends of a text whose comments can be passed can be passed. -/
theorem Passable.suffix {l text : List Char} (h : Passable text) (hl : l <:+ text) : Passable l := fun l' hl' => h l' (hl'.trans hl)

/-- The parser reads every text whose comments can be passed. -/
def ReadsAll {α : Type} (p : Parser α) : Prop := ∀ l, Passable l → ∃ a r, p l = .ok (a, r) ∧ r <:+ l

section ReadsAll

variable {α β : Type}

/-- A sequence reads every such text when its parts do. -/
theorem ReadsAll.bind {p : Parser α} {f : α → Parser β} (hp : ReadsAll p) (hf : ∀ a, ReadsAll (f a)) : ReadsAll (p >>= f) := by
  intro l hl
  obtain ⟨a, r, ha, hr⟩ := hp l hl
  obtain ⟨b, r', hb, hr'⟩ := hf a r (hl.suffix hr)
  exact ⟨b, r', (bind_of_ok ha f).trans hb, hr'.trans hr⟩

/-- Such a text is read to an end. -/
theorem ReadsAll.read {p : Parser α} (hp : ReadsAll p) {l : List Char} (hl : Passable l) : ∃ a r, p l = .ok (a, r) := by
  obtain ⟨a, r, h, -⟩ := hp l hl
  exact ⟨a, r, h⟩

theorem reads_pure (a : α) : ReadsAll (pure a : Parser α) := fun l _ => ⟨a, l, rfl, List.suffix_rfl⟩

/-- Blanks and comments are passed. -/
theorem reads_skip : ReadsAll skipWsAndComments := by
  intro l hl
  obtain ⟨r, hr⟩ := hl l List.suffix_rfl
  exact ⟨(), r, hr, suffix_skipWsAndComments _ _ _ hr⟩

/-- What may be missing is read or missing. -/
theorem reads_opt {p : Parser α} (h : Recovers p) (hs : Suffix p) : ReadsAll (opt p) := by
  intro l _
  obtain ⟨o, r, ho⟩ := h.opt l
  exact ⟨o, r, ho, hs.opt _ _ _ ho⟩

/-- A repetition of what takes some text is read. -/
theorem reads_many0 {p : Parser α} (h : Recovers p) (hp : Eats p) : ReadsAll (many0 p) := by
  intro l _
  rcases many0_of_eats hp l with hfail | ⟨as, r, hok, -⟩
  · exact absurd hfail (h.many0 l)
  · exact ⟨as, r, hok, hp.suffix.many0 _ _ _ hok⟩

/-- Pipelines read every such text. -/
theorem reads_parsePipeline : ReadsAll (parsePipeline source fromStr) := by
  intro l hl
  obtain ⟨p, r, hp⟩ : ∃ p r, parsePipeline source fromStr l = .ok (p, r) := by
    induction hn : l.length using Nat.strongRecOn generalizing l with
    | ind n ih =>
      obtain ⟨newInput, hskip⟩ := hl l List.suffix_rfl
      have hsuffix := suffix_skipWsAndComments _ _ _ hskip
      cases hstep : parsePipelineStep source fromStr (parsePipeline source fromStr) newInput with
      | error e => exact ⟨_, _, parsePipeline_of_no_step hskip hstep⟩
      | ok x =>
        obtain ⟨step, afterStep⟩ := x
        obtain ⟨hafter, hlt⟩ := stepRule_parsePipelineStep.eats _ suffix_parsePipeline _ _ _ hstep
        have hle := hsuffix.length_le
        obtain ⟨p, r, hp⟩ := ih afterStep.length (by omega) afterStep (hl.suffix (hafter.trans hsuffix)) rfl
        exact ⟨_, _, (parsePipeline_of_step hskip hstep).trans (bind_of_ok hp _)⟩
  exact ⟨p, r, hp, suffix_parsePipeline _ _ _ hp⟩

end ReadsAll

/-! ## The steps that are tried first -/

section Step

variable {n : String} {ws tail : List Char} {pipeline : Parser Pipeline}

/-- A step with a name, and what follows the name. -/
def stepText (n : String) (ws tail : List Char) : List Char := "|>".toList ++ (ws ++ (n.toList ++ tail))

/-- The head of a step leaves its name and what follows. -/
theorem stepHead_stepText (body : List Char → Parser PipelineStep) (hn : IsIdentifier n.toList)
    (hws : ∀ c ∈ ws, isMultispace c = true) : stepHead body (stepText n ws tail) = body (stepText n ws tail) (n.toList ++ tail) :=
  stepHead_apply body hws (hn.noBlank tail)

/-- The rest of a name that is longer than a keyword it starts with. -/
theorem split_keyword {word : String} (h : word.toList <+: n.toList) (hne : n ≠ word) :
    ∃ more, n.toList = word.toList ++ more ∧ more ≠ [] := by
  obtain ⟨more, hmore⟩ := h
  refine ⟨more, hmore.symm, fun hnil => hne ?_⟩
  rw [hnil, List.append_nil] at hmore
  exact String.toList_inj.mp hmore.symm

variable (hn : IsIdentifier n.toList) (hws : ∀ c ∈ ws, isMultispace c = true) (htail : EndsIdent tail)

include hn hws htail

/-- A name that does not start with `result` is no result step. -/
theorem parseResultStep_of_not (h : ¬"result".toList <+: n.toList) :
    parseResultStep source pipeline (stepText n ws tail) = .error .error := by
  rw [parseResultStep, stepHead_stepText _ hn hws, bind_of_error (tag_eq_error fun hp => h ?_)]
  exact (prefix_ident_iff (List.all_eq_true.mp (by decide)) htail).mp hp

omit htail in
/-- A name that starts with `result` is a `result` step, if nothing in it fails for good. -/
theorem parseResultStep_of_prefix (hne : n ≠ "result") (h : "result".toList <+: n.toList) (hp : Suffix pipeline) :
    parseResultStep source pipeline (stepText n ws tail) = .error .failure ∨
      ∃ branches location r, parseResultStep source pipeline (stepText n ws tail) = .ok (.result branches location, r) := by
  obtain ⟨more, hmore, hnil⟩ := split_keyword h hne
  have hnot : NotBlank (more ++ tail) := notBlank_of_ident hnil (fun c hc => hn.rest c (by rw [hmore]; simp [hc])) tail
  rw [parseResultStep, stepHead_stepText _ hn hws, hmore, List.append_assoc, bind_of_ok (tag_append ..), bind_of_ok (skip_notBlank hnot)]
  rcases many0_of_eats (eats_parseResultBranch hp) (more ++ tail) with hfail | ⟨branches, r, hok, -⟩
  · exact Or.inl (bind_of_error hfail _)
  · exact Or.inr ⟨_, _, _, bind_of_ok hok _⟩

/-- A name other than `foreach` is no loop. -/
theorem parseForeachStep_of_ne (hne : n ≠ "foreach") : parseForeachStep source pipeline (stepText n ws tail) = .error .error := by
  rw [parseForeachStep, stepHead_stepText _ hn hws]
  by_cases h : "foreach".toList <+: n.toList
  · obtain ⟨more, hmore, hnil⟩ := split_keyword h hne
    obtain ⟨c, l, rfl⟩ := List.exists_cons_of_ne_nil hnil
    have hc : isMultispace c = false := not_multispace_of_rest (hn.rest c (by rw [hmore]; simp))
    rw [hmore, List.append_assoc, bind_of_ok (tag_append ..), bind_of_error (e := .error)]
    refine if_pos ?_
    rw [List.cons_append, List.takeWhile_cons_of_neg (by simp [hc])]
    rfl
  · rw [bind_of_error (tag_eq_error fun hp => h ((prefix_ident_iff (List.all_eq_true.mp (by decide)) htail).mp hp))]

/-- The `if` step reads no other name than `ifthen`, in front of a colon. -/
theorem parseIfStep_of_not (hne : n ≠ "if") (h : ¬(n = "ifthen" ∧ tail.head? = some ':')) :
    parseIfStep source (parsePipeline source fromStr) (stepText n ws tail) = .error .error := by
  rw [parseIfStep, stepHead_stepText _ hn hws]
  by_cases hif : "if".toList <+: n.toList
  · obtain ⟨more, hmore, hnil⟩ := split_keyword hif hne
    have hrest : ∀ c ∈ more, isIdentRest c = true := fun c hc => hn.rest c (by rw [hmore]; simp [hc])
    have hnot : NotBlank (more ++ tail) := notBlank_of_ident hnil hrest tail
    have hpipe : ¬"|>".toList <+: more ++ tail := by
      obtain ⟨c, l, rfl⟩ := List.exists_cons_of_ne_nil hnil
      rintro ⟨l', hl⟩
      have hc : c = '|' := (List.cons.inj hl).1.symm
      exact absurd (hrest c List.mem_cons_self) (by rw [hc]; decide)
    rw [hmore, List.append_assoc, bind_of_ok (tag_append ..), bind_of_ok (skip_notBlank hnot),
      bind_of_ok (parsePipeline_of_not hnot hpipe), bind_of_ok (skip_notBlank hnot), bind_of_error (tag_eq_error fun hthen => h ?_)]
    -- `then` is in the name, so the colon is what follows it
    have hthen' : "then".toList <+: more ++ tail := (by decide : "then".toList <+: "then:".toList).trans hthen
    obtain ⟨l, rfl⟩ := (prefix_ident_iff (List.all_eq_true.mp (by decide)) htail).mp hthen'
    obtain ⟨l', hl'⟩ := hthen
    rw [show "then:".toList = "then".toList ++ [':'] from rfl, List.append_assoc, List.append_assoc,
      List.append_cancel_left_eq, List.singleton_append] at hl'
    cases l with
    | nil =>
      refine ⟨String.toList_inj.mp hmore, ?_⟩
      rw [List.nil_append] at hl'
      rw [← hl', List.head?_cons]
    | cons c l =>
      have hc : c = ':' := (List.cons.inj hl').1.symm
      exact absurd (hrest c (by simp)) (by rw [hc]; decide)
  · rw [bind_of_error (tag_eq_error fun hp => hif ((prefix_ident_iff (List.all_eq_true.mp (by decide)) htail).mp hp))]

/-- A name that does not start with `dispatch` is no dispatch step. -/
theorem parseDispatchStep_of_not (h : ¬"dispatch".toList <+: n.toList) :
    parseDispatchStep source pipeline (stepText n ws tail) = .error .error := by
  rw [parseDispatchStep, stepHead_stepText _ hn hws, bind_of_error (tag_eq_error fun hp => h ?_)]
  exact (prefix_ident_iff (List.all_eq_true.mp (by decide)) htail).mp hp

omit htail hn in
/-- In front of a colon `ifthen` is an `if` step. -/
theorem parseIfStep_of_then (htext : Passable (stepText n ws tail)) (h : n = "ifthen" ∧ tail.head? = some ':') :
    ∃ step r, parseIfStep source (parsePipeline source fromStr) (stepText n ws tail) = .ok (step, r) := by
  obtain ⟨rfl, hcolon⟩ := h
  obtain ⟨t, rfl⟩ : ∃ t, tail = ':' :: t := by
    cases tail with
    | nil => cases hcolon
    | cons c t => exact ⟨t, by rw [Option.some.inj hcolon]⟩
  have hnot : NotBlank ("then:".toList ++ t) := notBlank_cons (c := 't') (by decide) (by decide) _
  have hpipe : ¬"|>".toList <+: "then:".toList ++ t := by
    rintro ⟨l, hl⟩
    exact absurd (List.cons.inj hl).1 (by decide)
  have hleft : Passable t := htext.suffix ⟨"|>".toList ++ (ws ++ ("ifthen".toList ++ [':'])), by simp [stepText]⟩
  have hblock : Recovers (block (parsePipeline source fromStr) "else:") := recovers_block recovers_parsePipeline _
  have hname : IsIdentifier "ifthen".toList := ⟨'i', "fthen".toList, rfl, by decide, List.all_eq_true.mp (by decide)⟩
  have hsplit : "ifthen".toList ++ ':' :: t = "if".toList ++ ("then:".toList ++ t) := rfl
  rw [parseIfStep, stepHead_stepText _ hname hws, hsplit, bind_of_ok (tag_append ..), bind_of_ok (skip_notBlank hnot),
    bind_of_ok (parsePipeline_of_not hnot hpipe), bind_of_ok (skip_notBlank hnot), bind_of_ok (tag_append ..)]
  exact (reads_skip.bind fun _ => reads_parsePipeline.bind fun _ => reads_skip.bind fun _ =>
    (reads_opt hblock ((local_block _).suffix _ suffix_parsePipeline)).bind fun _ => reads_skip.bind fun _ =>
      (reads_opt (recovers_tag _) (suffix_tag _)).bind fun _ => reads_pure _).read hleft

omit htail in
/-- A name that starts with `dispatch` is a `dispatch` step. -/
theorem parseDispatchStep_of_prefix (htext : Passable (stepText n ws tail)) (h : "dispatch".toList <+: n.toList) :
    ∃ step r, parseDispatchStep source (parsePipeline source fromStr) (stepText n ws tail) = .ok (step, r) := by
  obtain ⟨more, hmore⟩ := h
  have hleft : Passable (more ++ tail) := htext.suffix ⟨"|>".toList ++ (ws ++ "dispatch".toList), by simp [stepText, ← hmore]⟩
  have hblock : Recovers (block (parsePipeline source fromStr) "default:") := recovers_block recovers_parsePipeline _
  have hsuffix : Suffix (block (parsePipeline source fromStr) "default:") := (local_block _).suffix _ suffix_parsePipeline
  rw [parseDispatchStep, stepHead_stepText _ hn hws, ← hmore, List.append_assoc, bind_of_ok (tag_append ..)]
  exact (reads_skip.bind fun _ =>
    (reads_many0 (recovers_parseDispatchBranch recovers_parsePipeline) (eats_parseDispatchBranch suffix_parsePipeline)).bind fun _ =>
    (reads_opt (recovers_skipWsAndComments.bind fun _ => hblock) (suffix_skipWsAndComments.bind fun _ => hsuffix)).bind fun _ =>
      reads_skip.bind fun _ => (reads_opt (recovers_tag _) (suffix_tag _)).bind fun _ => reads_pure _).read hleft

end Step

/-! ## Kinds of steps -/

/-- A control flow step is no regular step. -/
def IsControlFlow (step : PipelineStep) : Prop := ∀ s, step ≠ .regular s

/-- The head of a step changes nothing about what its body yields. -/
theorem yields_stepHead {P : PipelineStep → Prop} {body : List Char → Parser PipelineStep} (h : ∀ s, Yields (body s) P) :
    Yields (stepHead body) P :=
  yields_bind fun _ => yields_bind fun s => yields_bind fun _ => yields_bind fun _ => h s

variable {pipeline : Parser Pipeline}

/-- A result step is control flow. -/
theorem yields_parseResultStep : Yields (parseResultStep source pipeline) IsControlFlow :=
  yields_stepHead fun _ => yields_bind fun _ => yields_bind fun _ => yields_bind fun _ => yields_pure nofun

/-- An `if` step is control flow. -/
theorem yields_parseIfStep : Yields (parseIfStep source pipeline) IsControlFlow :=
  yields_stepHead fun _ => yields_bind fun _ => yields_bind fun _ => yields_bind fun _ => yields_bind fun _ => yields_bind fun _ =>
    yields_bind fun _ => yields_bind fun _ => yields_bind fun _ => yields_bind fun _ => yields_bind fun _ => yields_bind fun _ =>
      yields_pure nofun

/-- A dispatch step is control flow. -/
theorem yields_parseDispatchStep : Yields (parseDispatchStep source pipeline) IsControlFlow :=
  yields_stepHead fun _ => yields_bind fun _ => yields_bind fun _ => yields_bind fun _ => yields_bind fun _ => yields_bind fun _ =>
    yields_bind fun _ => yields_pure nofun

/-- A regular step has the name that stands in front of it. -/
theorem parseRegularStep_name {n : String} {ws tail after : List Char} {step : PipelineStep} (hn : IsIdentifier n.toList)
    (hws : ∀ c ∈ ws, isMultispace c = true) (htail : EndsIdent tail)
    (h : parseRegularStep source fromStr (stepText n ws tail) = .ok (step, after)) : ∃ s, step = .regular s ∧ s.name = n := by
  rw [parseRegularStep, stepHead_stepText _ hn hws] at h
  obtain ⟨name, l, hname, h⟩ := bind_eq_ok h
  rw [parseIdentifier_append hn htail] at hname
  cases hname
  obtain ⟨_, _, -, h⟩ := bind_eq_ok h
  obtain ⟨_, _, -, h⟩ := bind_eq_ok h
  obtain ⟨_, _, -, h⟩ := bind_eq_ok h
  obtain ⟨_, _, -, h⟩ := bind_eq_ok h
  obtain ⟨_, _, -, h⟩ := bind_eq_ok h
  obtain ⟨_, _, -, h⟩ := bind_eq_ok h
  cases h
  exact ⟨_, rfl, String.ofList_toList⟩

/-! ## The name of a step is kept -/

/-- A step that is written with a name, as the parser of regular steps reads it, and the steps after it are read as that step and those
steps exactly when the name does not start with `result` and neither an `if` nor a `dispatch` step is read in its place. Where all comments
can be passed, an `if` step is read for `ifthen:` and a `dispatch` step for every name that starts with `dispatch`. -/
theorem step_name_kept_iff {n : String} {ws tail after r : List Char} {step : PipelineStep} {more : Pipeline}
    (hn : IsIdentifier n.toList) (hresult : n ≠ "result") (hif : n ≠ "if") (hforeach : n ≠ "foreach")
    (hws : ∀ c ∈ ws, isMultispace c = true) (htail : EndsIdent tail)
    (hstep : parseRegularStep source fromStr (stepText n ws tail) = .ok (step, after))
    (hmore : parsePipeline source fromStr after = .ok (more, r)) :
    (∃ s, step = .regular s ∧ s.name = n) ∧
    (parsePipeline source fromStr (stepText n ws tail) = .ok ({ steps := step :: more.steps }, r) ↔
      ¬"result".toList <+: n.toList ∧
      (n = "ifthen" ∧ tail.head? = some ':' →
        parseIfStep source (parsePipeline source fromStr) (stepText n ws tail) = .error .error) ∧
      ("dispatch".toList <+: n.toList →
        parseDispatchStep source (parsePipeline source fromStr) (stepText n ws tail) = .error .error)) ∧
    (Passable (stepText n ws tail) →
      (parsePipeline source fromStr (stepText n ws tail) = .ok ({ steps := step :: more.steps }, r) ↔
        ¬"result".toList <+: n.toList ∧ ¬(n = "ifthen" ∧ tail.head? = some ':') ∧ ¬"dispatch".toList <+: n.toList)) := by
  obtain ⟨s, rfl, hname⟩ := parseRegularStep_name hn hws htail hstep
  have hskip : skipWsAndComments (stepText n ws tail) = .ok ((), stepText n ws tail) :=
    skip_notBlank (notBlank_cons (c := '|') (by decide) (by decide) _)
  have hexact : parsePipeline source fromStr (stepText n ws tail) = .ok ({ steps := .regular s :: more.steps }, r) ↔
      parseResultStep source (parsePipeline source fromStr) (stepText n ws tail) = .error .error ∧
      parseIfStep source (parsePipeline source fromStr) (stepText n ws tail) = .error .error ∧
      parseDispatchStep source (parsePipeline source fromStr) (stepText n ws tail) = .error .error := by
    constructor
    · intro h
      cases hread : parsePipelineStep source fromStr (parsePipeline source fromStr) (stepText n ws tail) with
      | error e =>
        rw [parsePipeline_of_no_step hskip hread] at h
        cases h
      | ok x =>
        obtain ⟨first, l⟩ := x
        rw [parsePipeline_of_step hskip hread] at h
        obtain ⟨others, _, -, hpure⟩ := bind_eq_ok h
        have hsteps : first :: others.steps = .regular s :: more.steps :=
          congrArg (fun x : Pipeline × List Char => x.1.steps) (Except.ok.inj hpure)
        obtain rfl := (List.cons.inj hsteps).1
        obtain hr | ⟨hr, hread⟩ := alt_eq_ok hread
        · exact absurd rfl (yields_parseResultStep _ _ _ hr s)
        obtain hi | ⟨hi, hread⟩ := alt_eq_ok hread
        · exact absurd rfl (yields_parseIfStep _ _ _ hi s)
        obtain hd | ⟨hd, -⟩ := alt_eq_ok hread
        · exact absurd rfl (yields_parseDispatchStep _ _ _ hd s)
        exact ⟨hr, hi, hd⟩
    · rintro ⟨hr, hi, hd⟩
      have hread : parsePipelineStep source fromStr (parsePipeline source fromStr) (stepText n ws tail) = .ok (.regular s, after) := by
        rw [parsePipelineStep, alt_of_error hr, alt_of_error hi, alt_of_error hd,
          alt_of_error (parseForeachStep_of_ne hn hws htail hforeach), hstep]
      rw [parsePipeline_of_step hskip hread, bind_of_ok hmore]
      rfl
  have hresultStep : parseResultStep source (parsePipeline source fromStr) (stepText n ws tail) = .error .error ↔
      ¬"result".toList <+: n.toList := by
    refine ⟨fun he hprefix => ?_, parseResultStep_of_not hn hws htail⟩
    obtain hfail | ⟨_, _, _, hok⟩ := parseResultStep_of_prefix hn hws hresult hprefix suffix_parsePipeline
    · rw [hfail] at he
      cases he
    · rw [hok] at he
      cases he
  refine ⟨⟨s, rfl, hname⟩, ?_, fun hpass => ?_⟩
  · rw [hexact, hresultStep]
    refine and_congr_right fun _ => and_congr ⟨fun hi _ => hi, fun hi => ?_⟩ ⟨fun hd _ => hd, fun hd => ?_⟩
    · by_cases hthen : n = "ifthen" ∧ tail.head? = some ':'
      · exact hi hthen
      · exact parseIfStep_of_not hn hws htail hif hthen
    · by_cases hdispatch : "dispatch".toList <+: n.toList
      · exact hd hdispatch
      · exact parseDispatchStep_of_not hn hws htail hdispatch
  · rw [hexact, hresultStep]
    refine and_congr_right fun _ => and_congr ⟨fun hi hthen => ?_, parseIfStep_of_not hn hws htail hif⟩
      ⟨fun hd hdispatch => ?_, parseDispatchStep_of_not hn hws htail⟩
    · obtain ⟨_, _, hok⟩ := parseIfStep_of_then hws hpass hthen
      rw [hok] at hi
      cases hi
    · obtain ⟨_, _, hok⟩ := parseDispatchStep_of_prefix hn hws hpass hdispatch
      rw [hok] at hd
      cases hd

/-- The steps of a pipeline, with their names where they have one. -/
def stepNames (p : Pipeline) : List (Option String) :=
  p.steps.map fun
    | .regular s => some s.name
    | _ => none

/-- The names of a step that was read, with what is left. -/
def readName (r : Except Err (PipelineStep × List Char)) : Except Err (List (Option String) × String) :=
  r.map fun out => (stepNames { steps := [out.1] }, String.ofList out.2)

/-- `resultFormatter` and `dispatchMail` are names that the parser of regular steps reads, and the parser of pipelines reads other steps. -/
theorem keyword_shadows_name :
    readName (parseRegularStep [] (fun _ => none) "|> resultFormatter".toList) = .ok ([some "resultFormatter"], "") ∧
      (parsePipeline [] (fun _ => none) "|> resultFormatter".toList).map (fun out => (stepNames out.1, String.ofList out.2)) =
        .ok ([none], "Formatter") ∧
      readName (parseRegularStep [] (fun _ => none) "|> dispatchMail: \x60a\x60".toList) = .ok ([some "dispatchMail"], "") ∧
      (parsePipeline [] (fun _ => none) "|> dispatchMail: \x60a\x60".toList).map (fun out => (stepNames out.1, String.ofList out.2)) =
        .ok ([none], "Mail: \x60a\x60") := by
  decide +kernel

/-- `foreachUser` is the name of a step. -/
theorem step_name_kept_foreachUser : ∃ step, ∃ more : Pipeline,
    parsePipeline [] (fun _ => none) (stepText "foreachUser" [' '] ": a\n|> jq".toList) = .ok ({ steps := step :: more.steps }, []) ∧
      ∃ s, step = .regular s ∧ s.name = "foreachUser" := by
  have hread : (parseRegularStep [] (fun _ => none) (stepText "foreachUser" [' '] ": a\n|> jq".toList)).map Prod.snd =
      .ok "|> jq".toList := by decide +kernel
  have hafter : (parsePipeline [] (fun _ => none) "|> jq".toList).map Prod.snd = .ok [] := by decide +kernel
  cases hstep : parseRegularStep [] (fun _ => none) (stepText "foreachUser" [' '] ": a\n|> jq".toList) with
  | error e =>
    rw [hstep] at hread
    cases hread
  | ok x =>
    obtain ⟨step, after⟩ := x
    rw [hstep] at hread
    obtain rfl : after = "|> jq".toList := Except.ok.inj hread
    cases hmore : parsePipeline [] (fun _ => none) "|> jq".toList with
    | error e =>
      rw [hmore] at hafter
      cases hafter
    | ok y =>
      obtain ⟨more, r⟩ := y
      rw [hmore] at hafter
      obtain rfl : r = [] := Except.ok.inj hafter
      have hname : IsIdentifier "foreachUser".toList := ⟨'f', "oreachUser".toList, rfl, by decide, List.all_eq_true.mp (by decide)⟩
      obtain ⟨hregular, hkept, -⟩ := step_name_kept_iff hname (by decide) (by decide) (by decide)
        (List.all_eq_true.mp (by decide)) (endsIdent_cons (c := ':') (by decide) _) hstep hmore
      refine ⟨step, more, hkept.mpr ⟨by decide, fun h => absurd h.1 (by decide), fun h => absurd h (by decide)⟩, hregular⟩

end Parser
end WebPipe
