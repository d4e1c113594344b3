import WebPipe.Parser.Tokens

/-!
# Slices of a text

`str::find` and slices by byte offsets. The source panics at an offset that is past the end or inside a character, and at a range
whose end stands before its start; here nothing is returned there.
-/

namespace WebPipe

/-- `str::find` of a text: the byte offset of its first occurrence. -/
def findText (pat l : List Char) : Option Nat := (Text.splitOnceChars pat l).map fun p => utf8Len p.1

/-- `str::split_at`. -/
def splitAtByte : Nat → List Char → Option (List Char × List Char)
  | 0, l => some ([], l)
  | _ + 1, [] => none
  | n + 1, c :: l => if c.utf8Size ≤ n + 1 then (splitAtByte (n + 1 - c.utf8Size) l).map fun p => (c :: p.1, p.2) else none

/-- `&s[start..]`. -/
def sliceFrom (start : Nat) (l : List Char) : Option (List Char) := (splitAtByte start l).map Prod.snd

/-- `&s[start..stop]`. -/
def slice (start stop : Nat) (l : List Char) : Option (List Char) :=
  if start ≤ stop then (splitAtByte stop l).bind fun p => sliceFrom start p.1 else none

/-- The pieces of a text between the occurrences of a separator, with one unit of fuel for each. -/
def splitTextLoop (sep : List Char) : Nat → List Char → List (List Char)
  | 0, l => [l]
  | n + 1, l =>
    match Text.splitOnceChars sep l with
    | none => [l]
    | some (piece, rest) => piece :: splitTextLoop sep n rest

/-- `str::split` of a text. -/
def splitText (sep l : List Char) : List (List Char) := splitTextLoop sep l.length l

/-- A line without the carriage return before its end. -/
def stripReturn (line : List Char) : List Char := if line.getLast? = some '\r' then line.dropLast else line

/-- `str::lines`: a line break at the end of the text starts no line. -/
def lines (l : List Char) : List (List Char) :=
  let parts := l.splitOn '\n'
  parts.dropLast.map stripReturn ++ (parts.getLast?.toList.filter fun last => last ≠ [])

/-! ## Lines -/

theorem splitOn_ne_nil (c : Char) (l : List Char) : l.splitOn c ≠ [] := List.splitOnP_ne_nil _ l

/-- A separator after text without one splits it off. -/
theorem splitOn_append_cons {c : Char} {x : List Char} (hx : c ∉ x) (y : List Char) : (x ++ c :: y).splitOn c = x :: y.splitOn c := by
  induction x with
  | nil => simp [List.splitOn_cons_eq_if_modifyHead]
  | cons d x ih =>
    rw [List.mem_cons, not_or] at hx
    rw [List.cons_append, List.splitOn_cons_eq_if_modifyHead, if_neg (by simpa using fun h : d = c => hx.1 h.symm), ih hx.2]
    rfl

theorem splitOn_of_not_mem {c : Char} {x : List Char} (hx : c ∉ x) : x.splitOn c = [x] := by
  induction x with
  | nil => exact List.splitOn_nil c
  | cons d x ih =>
    rw [List.mem_cons, not_or] at hx
    rw [List.splitOn_cons_eq_if_modifyHead, if_neg (by simpa using fun h : d = c => hx.1 h.symm), ih hx.2]
    rfl

/-- Text without a line break lengthens the first line of what follows. -/
theorem splitOn_append_of_not_mem {c : Char} {x : List Char} (hx : c ∉ x) (y : List Char) :
    ∃ first more, y.splitOn c = first :: more ∧ (x ++ y).splitOn c = (x ++ first) :: more := by
  obtain ⟨first, more, hmore⟩ := List.exists_cons_of_ne_nil (splitOn_ne_nil c y)
  refine ⟨first, more, hmore, ?_⟩
  induction x with
  | nil => exact hmore
  | cons d x ih =>
    rw [List.mem_cons, not_or] at hx
    rw [List.cons_append, List.splitOn_cons_eq_if_modifyHead, if_neg (by simpa using fun h : d = c => hx.1 h.symm), ih hx.2]
    rfl

/-! ## Finding -/

/-- A text is found at its first occurrence, in bytes. -/
theorem findText_eq_some_iff {pat l : List Char} {n : Nat} :
    findText pat l = some n ↔ ∃ x y, Text.FirstAt pat l x y ∧ utf8Len x = n := by
  unfold findText
  rw [Option.map_eq_some_iff]
  constructor
  · rintro ⟨⟨x, y⟩, h, rfl⟩
    exact ⟨x, y, Text.splitOnceChars_eq_some_iff.mp h, rfl⟩
  · rintro ⟨x, y, h, rfl⟩
    exact ⟨(x, y), Text.splitOnceChars_eq_some_iff.mpr h, rfl⟩

/-! ## Splitting at an offset -/

theorem utf8Len_eq_zero {l : List Char} : utf8Len l = 0 ↔ l = [] := by
  constructor
  · intro h
    have hlength := length_le_utf8Len l
    exact List.eq_nil_of_length_eq_zero (by omega)
  · rintro rfl
    rfl

/-- A text is split after a part of it. -/
@[simp] theorem splitAtByte_append (x y : List Char) : splitAtByte (utf8Len x) (x ++ y) = some (x, y) := by
  induction x with
  | nil =>
    cases y <;> rfl
  | cons c x ih =>
    have hpos := c.utf8Size_pos
    obtain ⟨n, hn⟩ : ∃ n, utf8Len (c :: x) = n + 1 := ⟨utf8Len (c :: x) - 1, by rw [utf8Len_cons]; omega⟩
    have hrest : n + 1 - c.utf8Size = utf8Len x := by
      rw [← hn, utf8Len_cons]
      omega
    rw [hn, List.cons_append, splitAtByte, if_pos (by rw [← hn, utf8Len_cons]; omega), hrest, ih]
    rfl

/-- An offset splits a text where it is the length of the first part. -/
theorem splitAtByte_eq_some_iff {n : Nat} {l x y : List Char} : splitAtByte n l = some (x, y) ↔ l = x ++ y ∧ utf8Len x = n := by
  constructor
  · intro h
    induction l generalizing n x with
    | nil =>
      cases n with
      | zero =>
        cases h
        exact ⟨rfl, rfl⟩
      | succ n => cases h
    | cons c l ih =>
      cases n with
      | zero =>
        cases h
        exact ⟨rfl, rfl⟩
      | succ n =>
        rw [splitAtByte] at h
        split at h
        · next hle =>
          obtain ⟨⟨x', y'⟩, hx', heq⟩ := Option.map_eq_some_iff.mp h
          cases heq
          obtain ⟨rfl, hlen⟩ := ih hx'
          refine ⟨rfl, ?_⟩
          rw [utf8Len_cons, hlen]
          omega
        · cases h
  · rintro ⟨rfl, rfl⟩
    exact splitAtByte_append x y

/-- Two splits of a text at the same offset are one. -/
theorem split_unique {x y x' y' : List Char} (h : x ++ y = x' ++ y') (hlen : utf8Len x = utf8Len x') : x = x' ∧ y = y' := by
  have hsplit := splitAtByte_append x y
  rw [h, hlen, splitAtByte_append] at hsplit
  cases hsplit
  exact ⟨rfl, rfl⟩

/-- An offset at which a character starts, or the end. -/
def IsBoundary (n : Nat) (l : List Char) : Prop := ∃ x, x <+: l ∧ utf8Len x = n

/-- A text is split at the boundaries of characters only. -/
theorem splitAtByte_ne_none_iff {n : Nat} {l : List Char} : splitAtByte n l ≠ none ↔ IsBoundary n l := by
  rw [Option.ne_none_iff_exists']
  constructor
  · rintro ⟨⟨x, y⟩, h⟩
    obtain ⟨rfl, hlen⟩ := splitAtByte_eq_some_iff.mp h
    exact ⟨x, List.prefix_append x y, hlen⟩
  · rintro ⟨x, ⟨y, rfl⟩, rfl⟩
    exact ⟨(x, y), splitAtByte_append x y⟩

/-- A slice to the end is an end of the text. -/
theorem sliceFrom_eq_some_iff {n : Nat} {l y : List Char} : sliceFrom n l = some y ↔ ∃ x, l = x ++ y ∧ utf8Len x = n := by
  unfold sliceFrom
  rw [Option.map_eq_some_iff]
  constructor
  · rintro ⟨⟨x, y'⟩, h, rfl⟩
    exact ⟨x, splitAtByte_eq_some_iff.mp h⟩
  · rintro ⟨x, h⟩
    exact ⟨(x, y), splitAtByte_eq_some_iff.mpr h, rfl⟩

/-- A slice is a part of the text. -/
theorem slice_eq_some_iff {start stop : Nat} {l m : List Char} :
    slice start stop l = some m ↔ ∃ x y, l = x ++ m ++ y ∧ utf8Len x = start ∧ utf8Len (x ++ m) = stop := by
  unfold slice
  constructor
  · intro h
    split at h
    · obtain ⟨⟨front, y⟩, hfront, hm⟩ := Option.bind_eq_some_iff.mp h
      obtain ⟨rfl, hstop⟩ := splitAtByte_eq_some_iff.mp hfront
      obtain ⟨x, rfl, hx⟩ := sliceFrom_eq_some_iff.mp hm
      exact ⟨x, y, rfl, hx, hstop⟩
    · cases h
  · rintro ⟨x, y, rfl, rfl, rfl⟩
    have hle : utf8Len x ≤ utf8Len (x ++ m) := by
      rw [utf8Len_append]
      omega
    rw [if_pos hle, splitAtByte_append, Option.bind_some]
    exact sliceFrom_eq_some_iff.mpr ⟨x, rfl, rfl⟩

/-- A slice to the end starts at a boundary. -/
theorem sliceFrom_ne_none_iff {n : Nat} {l : List Char} : sliceFrom n l ≠ none ↔ IsBoundary n l := by
  rw [← splitAtByte_ne_none_iff, sliceFrom, ne_eq, Option.map_eq_none_iff]

/-- Prefixes of a text are ordered by their lengths. -/
theorem prefix_of_utf8Len_le {x x' l : List Char} (h : x <+: l) (h' : x' <+: l) (hle : utf8Len x ≤ utf8Len x') : x <+: x' := by
  rcases List.prefix_or_prefix_of_prefix h h' with hpre | ⟨t, rfl⟩
  · exact hpre
  · rw [utf8Len_append] at hle
    rw [utf8Len_eq_zero.mp (by omega : utf8Len t = 0), List.append_nil]

/-- A slice lies between two boundaries, in order. -/
theorem slice_ne_none_iff {start stop : Nat} {l : List Char} :
    slice start stop l ≠ none ↔ start ≤ stop ∧ IsBoundary start l ∧ IsBoundary stop l := by
  rw [Option.ne_none_iff_exists']
  constructor
  · rintro ⟨m, hm⟩
    obtain ⟨x, y, rfl, rfl, rfl⟩ := slice_eq_some_iff.mp hm
    refine ⟨?_, ⟨x, ⟨m ++ y, by simp⟩, rfl⟩, ⟨x ++ m, ⟨y, rfl⟩, rfl⟩⟩
    rw [utf8Len_append]
    omega
  · rintro ⟨hle, ⟨x, hx, rfl⟩, ⟨z, ⟨y, rfl⟩, rfl⟩⟩
    obtain ⟨m, rfl⟩ := prefix_of_utf8Len_le hx (List.prefix_append z y) hle
    exact ⟨m, slice_eq_some_iff.mpr ⟨x, y, rfl, rfl, rfl⟩⟩

end WebPipe
