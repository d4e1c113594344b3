import WebPipe.Debugger.Places
import WebPipe.Slices

/-!
# Paths and pointers

A value put in a place is read back there and nowhere else, so a place is known from what is put in it (`putAt_unique`). A pointer is read
as the tokens it was written from, and leads along the paths that its tokens name (`setTokens_eq_some_iff`).
-/

namespace WebPipe

namespace Value

variable {new v v' : Value} {path other : List PathStep}

/-! ## Places -/

/-- A path is followed by another. -/
theorem getAt_append (path other : List PathStep) (v : Value) : getAt (path ++ other) v = (getAt path v).bind (getAt other) := by
  induction path generalizing v with
  | nil => rfl
  | cons step path ih =>
    cases step <;> cases v <;> try rfl
    · next key members =>
      rw [List.cons_append, getAt, getAt]
      cases IndexMap.get members key with
      | none => rfl
      | some w => exact ih w
    · next i items =>
      rw [List.cons_append, getAt, getAt]
      cases items[i]? with
      | none => rfl
      | some w => exact ih w

/-- A value can be put where there is one. -/
theorem exists_putAt (new : Value) (h : (getAt path v).isSome) : ∃ v', putAt new path v = some v' := by
  induction path generalizing v with
  | nil => exact ⟨new, rfl⟩
  | cons step path ih =>
    cases step <;> cases v <;> try cases h
    · next key members =>
      simp only [getAt] at h
      cases hk : IndexMap.get members key with
      | none => simp [hk] at h
      | some w =>
        obtain ⟨w', hw⟩ := ih (v := w) (by simpa [hk] using h)
        exact ⟨.object (IndexMap.insert members key w'), by simp [putAt, hk, hw]⟩
    · next i items =>
      simp only [getAt] at h
      cases hi : items[i]? with
      | none => simp [hi] at h
      | some w =>
        obtain ⟨w', hw⟩ := ih (v := w) (by simpa [hi] using h)
        exact ⟨.array (items.set i w'), by simp [putAt, hi, hw]⟩

/-- A step of a replacement: the part is there, and is replaced in it. -/
theorem putAt_cons {step : PathStep} (h : putAt new (step :: path) v = some v') :
    ∃ w w', getAt [step] v = some w ∧ putAt new path w = some w' ∧ getAt [step] v' = some w' ∧
      ∀ step', step' ≠ step → getAt [step'] v' = getAt [step'] v := by
  cases step <;> cases v <;> try cases h
  · next key members =>
    simp only [putAt, Option.bind_eq_some_iff, Option.map_eq_some_iff] at h
    obtain ⟨w, hw, w', hput, rfl⟩ := h
    refine ⟨w, w', by simp [getAt, hw], hput, by simp [getAt], fun step' hne => ?_⟩
    cases step' with
    | member key' => simp [getAt, IndexMap.get_insert_of_ne members w' (fun he => hne (congrArg _ he))]
    | item i => rfl
  · next i items =>
    simp only [putAt, Option.bind_eq_some_iff, Option.map_eq_some_iff] at h
    obtain ⟨w, hw, w', hput, rfl⟩ := h
    obtain ⟨hlt, -⟩ := List.getElem?_eq_some_iff.mp hw
    refine ⟨w, w', by simp [getAt, hw], hput, by simp [getAt, hlt], fun step' hne => ?_⟩
    cases step' with
    | member key => rfl
    | item j => simp [getAt, List.getElem?_set_ne (fun he : i = j => hne (congrArg _ he.symm))]

/-- What is replaced was there. -/
theorem isSome_getAt_of_putAt (h : putAt new path v = some v') : (getAt path v).isSome := by
  induction path generalizing v v' with
  | nil => rfl
  | cons step path ih =>
    obtain ⟨w, w', hbefore, hput, -, -⟩ := putAt_cons h
    rw [← List.singleton_append, getAt_append, hbefore]
    exact ih hput

/-- What is put in a place is there. -/
theorem getAt_putAt (h : putAt new path v = some v') : getAt path v' = some new := by
  induction path generalizing v v' with
  | nil => exact congrArg some (Option.some.inj h).symm
  | cons step path ih =>
    obtain ⟨w, w', -, hput, hthere, -⟩ := putAt_cons h
    rw [← List.singleton_append, getAt_append, hthere]
    exact ih hput

/-- A place that neither holds the place of a change nor lies in it is left as it is. -/
theorem getAt_putAt_of_apart (h : putAt new path v = some v') (hin : ¬ path <+: other) (hout : ¬ other <+: path) :
    getAt other v' = getAt other v := by
  induction path generalizing v v' other with
  | nil => exact absurd List.nil_prefix hin
  | cons step path ih =>
    cases other with
    | nil => exact absurd List.nil_prefix hout
    | cons step' other =>
      obtain ⟨w, w', hbefore, hput, hthere, hothers⟩ := putAt_cons h
      rw [← List.singleton_append, getAt_append, getAt_append]
      by_cases hstep : step' = step
      · subst hstep
        rw [hthere, hbefore]
        rw [List.prefix_cons_inj] at hin hout
        exact ih hput hin hout
      · rw [hothers step' hstep]

/-- A text has no parts. -/
theorem getAt_string {s : String} {w : Value} (h : getAt path (.string s) = some w) : path = [] := by
  cases path with
  | nil => rfl
  | cons step path => cases step <;> cases h

/-- The place of a text that was not there before is known from the result. -/
theorem putAt_unique {s : String} (h : putAt (.string s) path v = some v') (hother : putAt (.string s) other v = some v')
    (hnew : getAt path v ≠ some (.string s)) : path = other := by
  have hthere := getAt_putAt h
  have hother' := getAt_putAt hother
  by_cases hin : path <+: other
  · obtain ⟨rest, rfl⟩ := hin
    rw [getAt_append, hthere] at hother'
    rw [getAt_string hother', List.append_nil]
  by_cases hout : other <+: path
  · obtain ⟨rest, rfl⟩ := hout
    rw [getAt_append, hother'] at hthere
    rw [getAt_string hthere, List.append_nil]
  · rw [getAt_putAt_of_apart hother hout hin] at hthere
    exact absurd hthere hnew

end Value

/-! ## Tokens -/

/-- A token of a pointer leads along a step. -/
def PathStep.ReadBy (token : String) : PathStep → Prop
  | .member key => key = token
  | .item i => parseIndex token = some i

/-- Assigning through tokens is a replacement in a place that they lead to. -/
theorem setTokens_eq_some_iff {new v v' : Value} {tokens : List String} :
    Value.setTokens new tokens v = some v' ↔ ∃ path, List.Forall₂ PathStep.ReadBy tokens path ∧ Value.putAt new path v = some v' := by
  induction tokens generalizing v v' with
  | nil =>
    constructor
    · intro h
      exact ⟨[], .nil, h⟩
    · rintro ⟨path, hread, h⟩
      cases hread
      exact h
  | cons token tokens ih =>
    constructor
    · intro h
      cases v <;> try cases h
      · next items =>
        simp only [Value.setTokens, Option.bind_eq_some_iff, Option.map_eq_some_iff] at h
        obtain ⟨i, hi, w, hw, w', hset, rfl⟩ := h
        obtain ⟨path, hread, hput⟩ := ih.mp hset
        exact ⟨.item i :: path, .cons hi hread, by simp [Value.putAt, hw, hput]⟩
      · next members =>
        simp only [Value.setTokens, Option.bind_eq_some_iff, Option.map_eq_some_iff] at h
        obtain ⟨w, hw, w', hset, rfl⟩ := h
        obtain ⟨path, hread, hput⟩ := ih.mp hset
        exact ⟨.member token :: path, .cons rfl hread, by simp [Value.putAt, hw, hput]⟩
    · rintro ⟨path, hread, h⟩
      cases hread with
      | @cons _ step _ path hstep hread =>
        cases step <;> cases v <;> try cases h
        · next key members =>
          obtain rfl : key = token := hstep
          simp only [Value.putAt, Option.bind_eq_some_iff, Option.map_eq_some_iff] at h
          obtain ⟨w, hw, w', hput, rfl⟩ := h
          simp [Value.setTokens, hw, ih.mpr ⟨path, hread, hput⟩]
        · next i items =>
          have hi : parseIndex token = some i := hstep
          simp only [Value.putAt, Option.bind_eq_some_iff, Option.map_eq_some_iff] at h
          obtain ⟨w, hw, w', hput, rfl⟩ := h
          simp [Value.setTokens, hi, hw, ih.mpr ⟨path, hread, hput⟩]

/-! ## The text of a pointer -/

namespace PathStep

/-- The name of a step, which a pointer spells. -/
def name : PathStep → String
  | .member key => key
  | .item i => toString i

/-- The token of a step, as the listings write it. -/
def token : PathStep → List Char
  | .member key => escapeJsonPointer key
  | .item i => (toString i).toList

end PathStep

/-- The pointer to a place. -/
def pointerText (path : List PathStep) : List Char := path.flatMap fun step => '/' :: step.token

/-- The pointer to a part of a place. -/
theorem pointerText_append (path : List PathStep) (step : PathStep) :
    pointerText (path ++ [step]) = pointerText path ++ '/' :: step.token := by
  simp [pointerText]

theorem replaceCharBy_cons (c d : Char) (new l : List Char) :
    replaceCharBy c new (d :: l) = (if d = c then new else [d]) ++ replaceCharBy c new l := rfl

theorem replaceCharBy_append (c : Char) (new l l' : List Char) :
    replaceCharBy c new (l ++ l') = replaceCharBy c new l ++ replaceCharBy c new l' := List.flatMap_append

theorem replaceCharBy_of_not_mem {c : Char} {new l : List Char} (h : c ∉ l) : replaceCharBy c new l = l := by
  induction l with
  | nil => rfl
  | cons d l ih =>
    rw [List.mem_cons, not_or] at h
    simp only [replaceCharBy, List.flatMap_cons, if_neg (Ne.symm h.1), List.singleton_append]
    exact congrArg (d :: ·) (ih h.2)

/-- Escaping character by character. -/
theorem escapeJsonPointer_eq (key : String) :
    escapeJsonPointer key = key.toList.flatMap fun c => if c = '~' then ['~', '0'] else if c = '/' then ['~', '1'] else [c] := by
  rw [escapeJsonPointer]
  induction key.toList with
  | nil => rfl
  | cons c l ih =>
    rw [List.flatMap_cons, ← ih, replaceCharBy_cons, replaceCharBy_append]
    by_cases htilde : c = '~'
    · subst htilde
      rfl
    by_cases hslash : c = '/'
    · subst hslash
      rfl
    · simp [replaceCharBy, htilde, hslash]

/-- An escaped key has no slash. -/
theorem slash_not_mem_escape (key : String) : '/' ∉ escapeJsonPointer key := by
  rw [escapeJsonPointer_eq, List.mem_flatMap]
  rintro ⟨c, -, hc⟩
  by_cases htilde : c = '~'
  · simp [htilde] at hc
  by_cases hslash : c = '/'
  · simp [hslash] at hc
  · simp only [if_neg htilde, if_neg hslash, List.mem_singleton] at hc
    exact hslash hc.symm

/-- What is escaped is read back. -/
theorem unescapeToken_escape (key : String) : unescapeToken (escapeJsonPointer key) = key := by
  have hslashes : ∀ l : List Char,
      replaceFrom ['~', '1'] ['/'] 0 (l.flatMap fun c => if c = '~' then ['~', '0'] else if c = '/' then ['~', '1'] else [c]) =
        l.flatMap fun c => if c = '~' then ['~', '0'] else [c] := by
    intro l
    induction l with
    | nil => rfl
    | cons c l ih =>
      rw [List.flatMap_cons, List.flatMap_cons, ← ih]
      by_cases htilde : c = '~'
      · subst htilde
        rfl
      by_cases hslash : c = '/'
      · subst hslash
        rfl
      · have hc : '~' ≠ c := Ne.symm htilde
        simp [replaceFrom, htilde, hslash, hc]
  have htildes : ∀ l : List Char, replaceFrom ['~', '0'] ['~'] 0 (l.flatMap fun c => if c = '~' then ['~', '0'] else [c]) = l := by
    intro l
    induction l with
    | nil => rfl
    | cons c l ih =>
      rw [List.flatMap_cons]
      by_cases htilde : c = '~'
      · subst htilde
        exact congrArg ('~' :: ·) ih
      · have hc : '~' ≠ c := Ne.symm htilde
        simp [replaceFrom, htilde, hc, ih]
  rw [unescapeToken, escapeJsonPointer_eq, hslashes, htildes, String.ofList_toList]

theorem not_mem_toString {i : Nat} {c : Char} (h : Text.isDigit c = false) : c ∉ (toString i).toList := Text.not_mem_repr h

/-- An index needs no escape. -/
theorem escape_toString (i : Nat) : escapeJsonPointer (toString i) = (toString i).toList := by
  rw [escapeJsonPointer, replaceCharBy_of_not_mem (not_mem_toString (by decide)), replaceCharBy_of_not_mem (not_mem_toString (by decide))]

/-- The token of a step is its name, escaped. -/
theorem PathStep.token_eq (step : PathStep) : step.token = escapeJsonPointer step.name := by
  cases step with
  | member key => rfl
  | item i => exact (escape_toString i).symm

/-- A pointer is read as the names of its steps. -/
theorem pointerTokens_pointerText (path : List PathStep) : pointerTokens (pointerText path) = some (path.map PathStep.name) := by
  have hsplit : ∀ path : List PathStep, (pointerText path).splitOn '/' = [] :: path.map PathStep.token := by
    intro path
    induction path with
    | nil => rfl
    | cons step path ih =>
      have htext : pointerText (step :: path) = [] ++ '/' :: (step.token ++ pointerText path) := rfl
      have hslash : '/' ∉ step.token := step.token_eq ▸ slash_not_mem_escape step.name
      rw [htext, splitOn_append_cons List.not_mem_nil]
      cases path with
      | nil => rw [pointerText, List.flatMap_nil, List.append_nil, splitOn_of_not_mem hslash, List.map_cons, List.map_nil]
      | cons step' path =>
        have hrest : pointerText (step' :: path) = '/' :: (step'.token ++ pointerText path) := rfl
        have hfirst : ([] : List Char) ++ '/' :: (step'.token ++ pointerText path) = pointerText (step' :: path) := rfl
        rw [← hfirst, splitOn_append_cons List.not_mem_nil, List.cons.injEq] at ih
        rw [hrest, splitOn_append_cons hslash, ih.2, List.map_cons, List.map_cons, List.map_cons]
  have hnames : ∀ path : List PathStep, (path.map PathStep.token).map unescapeToken = path.map PathStep.name := by
    intro path
    rw [List.map_map]
    exact List.map_congr_left fun step _ => by rw [Function.comp_apply, step.token_eq, unescapeToken_escape]
  cases path with
  | nil => rfl
  | cons step path =>
    have hfirst : (pointerText (step :: path)).head? = some '/' := rfl
    have hsome : pointerText (step :: path) ≠ [] := nofun
    rw [pointerTokens, if_neg hsome, if_pos hfirst, hsplit, List.drop_one, List.tail_cons, hnames]

/-! ## Indices -/

theorem parseUnsigned_lt {bits : Nat} {s : String} {n : Nat} (h : Text.parseUnsigned bits s = some n) : n < 2 ^ bits := by
  unfold Text.parseUnsigned at h
  extract_lets digits value at h
  split at h
  · cases h
  · split at h
    · next hlt =>
      obtain rfl := Option.some.inj h
      exact hlt
    · cases h

/-- An index has 64 bits. -/
theorem parseIndex_lt {s : String} {n : Nat} (h : parseIndex s = some n) : n < 2 ^ 64 := by
  unfold parseIndex at h
  split at h
  · cases h
  · exact parseUnsigned_lt h

/-- A number other than zero is written without a zero in front. -/
theorem head_repr_ne_zero {n : Nat} (h : 0 < n) : n.repr.toList.head? ≠ some '0' := by
  have hdigits : n.repr.toList = Nat.toDigits 10 n := by simp [Nat.repr]
  rw [hdigits]
  clear hdigits
  induction n using Nat.strongRecOn with
  | ind n ih =>
    by_cases hlt : n < 10
    · rw [Nat.toDigits_of_lt_base hlt]
      have hone : ∀ m, m < 10 → 0 < m → [m.digitChar].head? ≠ some '0' := by decide
      exact hone n hlt h
    · have hpos : 0 < n / 10 := by omega
      rw [Nat.toDigits_of_base_le (by omega) (by omega)]
      have hrest := ih (n / 10) (by omega) hpos
      cases hd : Nat.toDigits 10 (n / 10) with
      | nil => exact absurd hd (by simp)
      | cons c l =>
        rw [hd] at hrest
        exact hrest

/-- An index is read back. -/
theorem parseIndex_toString {i : Nat} (h : i < 2 ^ 64) : parseIndex (toString i) = some i := by
  have hplus : (toString i).toList.head? ≠ some '+' := by
    intro hhead
    exact not_mem_toString (c := '+') (by decide) (List.mem_of_mem_head? hhead)
  have hzero : ¬ ((toString i).toList.head? = some '0' ∧ (toString i).utf8ByteSize ≠ 1) := by
    rintro ⟨hhead, hsize⟩
    rcases Nat.eq_zero_or_pos i with rfl | hpos
    · exact hsize (by decide)
    · exact head_repr_ne_zero hpos hhead
  rw [parseIndex, if_neg (not_or.mpr ⟨hplus, hzero⟩)]
  exact Text.parseUnsigned_repr h

/-- The name that an item is listed under is no index. -/
theorem parseIndex_bracket (i : Nat) : parseIndex s!"[{i}]" = none := by
  have htext : (s!"[{i}]" : String).toList = '[' :: (toString i).toList ++ [']'] := by
    have happend : (s!"[{i}]" : String) = "[" ++ toString i ++ "]" := rfl
    rw [happend, String.toList_append, String.toList_append]
    rfl
  rw [parseIndex]
  split
  · rfl
  · exact Text.parseUnsigned_of_last htext (by decide) 64

end WebPipe
