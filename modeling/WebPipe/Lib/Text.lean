import Mathlib.Algebra.Group.Int.Defs
import Mathlib.Algebra.Group.Nat.Defs
import Mathlib.Algebra.GroupWithZero.Nat
import Mathlib.Data.List.TakeWhile

/-!
# Text operations

The string operations of the standard library that configuration texts are read with, on lists of characters and on strings:
trimming Unicode white space, splitting at a character, splitting once at a separator, lower-casing ASCII letters, and reading
a decimal number of a fixed width.
-/

namespace Text

/-- The characters with the Unicode property `White_Space`. -/
def isWhitespace (c : Char) : Bool :=
  let n := c.toNat
  (9 ≤ n && n ≤ 13) || n = 32 || n = 0x85 || n = 0xA0 || n = 0x1680 || (0x2000 ≤ n && n ≤ 0x200A) || n = 0x2028 ||
    n = 0x2029 || n = 0x202F || n = 0x205F || n = 0x3000

/-- Drop white space at both ends. -/
def trimChars (l : List Char) : List Char :=
  ((l.dropWhile isWhitespace).reverse.dropWhile isWhitespace).reverse

/-- Drop white space at both ends. -/
def trim (s : String) : String :=
  String.ofList (trimChars s.toList)

/-- The text before and after the first occurrence of a separator. -/
def splitOnceChars (sep : List Char) : List Char → Option (List Char × List Char)
  | [] => if sep = [] then some ([], []) else none
  | c :: rest =>
    if sep.isPrefixOf (c :: rest) then some ([], (c :: rest).drop sep.length)
    else (splitOnceChars sep rest).map (fun p => (c :: p.1, p.2))

/-- The text before and after the first occurrence of a separator. -/
def splitOnce (sep s : String) : Option (String × String) :=
  (splitOnceChars sep.toList s.toList).map (fun p => (String.ofList p.1, String.ofList p.2))

/-- A separator occurs in a text. -/
def contains (sep s : String) : Bool :=
  (splitOnceChars sep.toList s.toList).isSome

/-- The pieces of a text between the occurrences of a character; there is always at least one. -/
def split (c : Char) (s : String) : List String :=
  (s.toList.splitOn c).map String.ofList

/-- Replace every occurrence of a character. -/
def replaceChar (a b : Char) (s : String) : String :=
  String.ofList (s.toList.map (fun c => if c = a then b else c))

/-- What stands before a suffix of a text. -/
def stripSuffix (suffix s : String) : Option String :=
  if suffix.toList.isSuffixOf s.toList then some (String.ofList (s.toList.take (s.toList.length - suffix.toList.length)))
  else none

/-- Lower-case the ASCII letters of a text. -/
def toAsciiLowercase (s : String) : String :=
  String.ofList (s.toList.map (fun c => if 65 ≤ c.toNat && c.toNat ≤ 90 then Char.ofNat (c.toNat + 32) else c))

/-- The ASCII digits. -/
def isDigit (c : Char) : Bool :=
  48 ≤ c.toNat && c.toNat ≤ 57

/-- The ASCII letters and digits. -/
def isAsciiAlphanumeric (c : Char) : Bool :=
  isDigit c || (65 ≤ c.toNat && c.toNat ≤ 90) || (97 ≤ c.toNat && c.toNat ≤ 122)

/-- Read a number of at most `bits` bits: digits, after an optional plus sign. -/
def parseUnsigned (bits : Nat) (s : String) : Option Nat :=
  let digits := match s.toList with
    | '+' :: rest => rest
    | l => l
  if digits.isEmpty || !digits.all isDigit then none
  else
    let n := digits.foldl (fun acc c => acc * 10 + (c.toNat - 48)) 0
    if n < 2 ^ bits then some n else none

/-- Read a signed number of `bits` bits: digits, after an optional sign. -/
def parseSigned (bits : Nat) (s : String) : Option Int :=
  let (negative, digits) := match s.toList with
    | '+' :: rest => (false, rest)
    | '-' :: rest => (true, rest)
    | l => (false, l)
  if digits.isEmpty || !digits.all isDigit then none
  else
    let n : Nat := digits.foldl (fun acc c => acc * 10 + (c.toNat - 48)) 0
    if negative then if n ≤ 2 ^ (bits - 1) then some (-(n : Int)) else none
    else if n < 2 ^ (bits - 1) then some (n : Int) else none

example : trim " a b\n" = "a b" := by decide

example : splitOnce "::" "auth::login" = some ("auth", "login") := by decide

example : parseUnsigned 64 "18446744073709551616" = none := by decide

/-- A property of every character of a text, checked one by one. -/
theorem forall_mem_of_all {l : List Char} {p : Char → Bool} (h : l.all p = true) : ∀ c ∈ l, p c = true := List.all_eq_true.mp h

/-- A text is trimmed when it neither starts nor ends with white space. -/
theorem trimChars_eq_self_iff {l : List Char} :
    trimChars l = l ↔ l.dropWhile isWhitespace = l ∧ l.reverse.dropWhile isWhitespace = l.reverse := by
  constructor
  · intro h
    have hlength := congrArg List.length h
    unfold trimChars at hlength
    rw [List.length_reverse] at hlength
    have hinner := (List.dropWhile_suffix isWhitespace (l := (l.dropWhile isWhitespace).reverse)).length_le
    rw [List.length_reverse] at hinner
    have hfront : l.dropWhile isWhitespace = l := (List.dropWhile_suffix isWhitespace).eq_of_length_le (by omega)
    refine ⟨hfront, ?_⟩
    unfold trimChars at h
    rw [hfront] at h
    rw [← List.reverse_reverse (l.reverse.dropWhile isWhitespace), h]
  · rintro ⟨hfront, hback⟩
    rw [trimChars, hfront, hback, List.reverse_reverse]

/-- A text is trimmed when its characters are. -/
theorem trim_eq_self_iff {s : String} : trim s = s ↔ trimChars s.toList = s.toList := by
  unfold trim
  constructor
  · intro h
    have htext := congrArg String.toList h
    rwa [String.toList_ofList] at htext
  · intro h
    rw [h, String.ofList_toList]

/-- Trimming a text between white space. -/
theorem trimChars_append {pre l : List Char} (hpre : ∀ c ∈ pre, isWhitespace c = true) (hl : trimChars l = l) :
    trimChars (pre ++ l) = l := by
  obtain ⟨hfront, hback⟩ := trimChars_eq_self_iff.mp hl
  rw [trimChars, List.dropWhile_append_of_pos hpre, hfront, hback, List.reverse_reverse]

/-- White space before a text does not matter when it is trimmed. -/
theorem trimChars_blanks {pre : List Char} (hpre : ∀ c ∈ pre, isWhitespace c = true) (l : List Char) :
    trimChars (pre ++ l) = trimChars l := by
  rw [trimChars, List.dropWhile_append_of_pos hpre, trimChars]

/-- The characters that are no white space. -/
def visible (l : List Char) : Nat := l.countP fun c => !isWhitespace c

theorem visible_append (l l' : List Char) : visible (l ++ l') = visible l + visible l' := List.countP_append

theorem visible_eq_zero {l : List Char} : visible l = 0 ↔ ∀ c ∈ l, isWhitespace c = true := by
  simp [visible, List.countP_eq_zero]

theorem visible_dropWhile (l : List Char) : visible (l.dropWhile isWhitespace) = visible l := by
  have hblank : visible (l.takeWhile isWhitespace) = 0 := visible_eq_zero.mpr fun c hc => List.mem_takeWhile_imp hc
  have hsplit := visible_append (l.takeWhile isWhitespace) (l.dropWhile isWhitespace)
  rw [List.takeWhile_append_dropWhile] at hsplit
  omega

theorem visible_reverse (l : List Char) : visible l.reverse = visible l := List.countP_reverse

/-- Trimming takes nothing else away. -/
theorem visible_trimChars (l : List Char) : visible (trimChars l) = visible l := by
  rw [trimChars, visible_reverse, visible_dropWhile, visible_reverse, visible_dropWhile]

/-! ## The first occurrence of a text -/

/-- A pattern stands between two parts of a text, and nowhere before. -/
def FirstAt (pat l x y : List Char) : Prop := l = x ++ pat ++ y ∧ ∀ x' y', l = x' ++ pat ++ y' → x.length ≤ x'.length

/-- A text is split at the first occurrence. -/
theorem firstAt_of_splitOnceChars {pat l x y : List Char} (h : splitOnceChars pat l = some (x, y)) : FirstAt pat l x y := by
  induction l generalizing x with
  | nil =>
    rw [splitOnceChars] at h
    split at h
    · next hpat =>
      cases h
      exact ⟨by rw [hpat]; rfl, fun _ _ _ => Nat.zero_le _⟩
    · cases h
  | cons c l ih =>
    rw [splitOnceChars] at h
    split at h
    · next hpre =>
      obtain ⟨t, ht⟩ := List.isPrefixOf_iff_prefix.mp hpre
      rw [← ht, List.drop_left] at h
      cases h
      exact ⟨ht.symm, fun _ _ _ => Nat.zero_le _⟩
    · next hpre =>
      obtain ⟨⟨x₁, y₁⟩, hrest, heq⟩ := Option.map_eq_some_iff.mp h
      cases heq
      obtain ⟨hl, hfirst⟩ := ih hrest
      refine ⟨by rw [hl]; rfl, ?_⟩
      intro x' y' hx'
      cases x' with
      | nil => exact absurd (List.isPrefixOf_iff_prefix.mpr ⟨y', hx'.symm⟩) hpre
      | cons c' x' =>
        have hcut := hfirst x' y' (List.cons.inj hx').2
        simpa using hcut

/-- A text is split where there is an occurrence. -/
theorem splitOnceChars_ne_none {pat x y : List Char} : splitOnceChars pat (x ++ pat ++ y) ≠ none := by
  induction x with
  | nil =>
    rw [List.nil_append]
    cases hl : pat ++ y with
    | nil =>
      rw [splitOnceChars, if_pos (List.append_eq_nil_iff.mp hl).1]
      nofun
    | cons c l =>
      rw [splitOnceChars, if_pos (List.isPrefixOf_iff_prefix.mpr ⟨y, hl⟩)]
      nofun
  | cons c x ih =>
    rw [List.cons_append, List.cons_append, splitOnceChars]
    split
    · nofun
    · rwa [ne_eq, Option.map_eq_none_iff]

/-- A pattern is found where it occurs first. -/
theorem splitOnceChars_eq_some_iff {pat l x y : List Char} : splitOnceChars pat l = some (x, y) ↔ FirstAt pat l x y := by
  refine ⟨firstAt_of_splitOnceChars, ?_⟩
  rintro ⟨hl, hfirst⟩
  cases hs : splitOnceChars pat l with
  | none =>
    rw [hl] at hs
    exact absurd hs splitOnceChars_ne_none
  | some p =>
    obtain ⟨hl', hfirst'⟩ := firstAt_of_splitOnceChars hs
    have hlength : x.length = p.1.length := Nat.le_antisymm (hfirst _ _ hl') (hfirst' _ _ hl)
    rw [hl, List.append_assoc, List.append_assoc] at hl'
    obtain ⟨hx, hy⟩ := List.append_inj hl' hlength
    rw [hx, List.append_cancel_left hy]

/-- A pattern is found at once after text that does not hold its first character. -/
theorem splitOnceChars_append {c : Char} {pat x : List Char} (hx : c ∉ x) (y : List Char) :
    splitOnceChars (c :: pat) (x ++ c :: pat ++ y) = some (x, y) := by
  induction x with
  | nil =>
    have hpre : (c :: pat).isPrefixOf (c :: (pat ++ y)) = true := List.isPrefixOf_iff_prefix.mpr ⟨y, rfl⟩
    rw [List.nil_append, List.cons_append, splitOnceChars, if_pos hpre, ← List.cons_append, List.drop_left]
  | cons d x ih =>
    rw [List.mem_cons, not_or] at hx
    have hpre : ¬(c :: pat).isPrefixOf (d :: (x ++ c :: pat ++ y)) = true := by
      rw [List.isPrefixOf_iff_prefix]
      intro hpre
      exact hx.1 (List.cons_prefix_cons.mp hpre).1
    rw [List.cons_append, List.cons_append, splitOnceChars, if_neg hpre, ih hx.2]
    rfl

/-- A pattern is not found where one of its characters does not occur. -/
theorem splitOnceChars_of_not_mem {pat l : List Char} {c : Char} (hc : c ∈ pat) (hl : c ∉ l) : splitOnceChars pat l = none := by
  cases h : splitOnceChars pat l with
  | none => rfl
  | some p =>
    have hsplit := (splitOnceChars_eq_some_iff.mp h).1
    exact absurd (by rw [hsplit]; simp [hc]) hl

/-- A pattern occurs in a text where it is a part of it. -/
theorem contains_iff_infix {pat s : String} : contains pat s = true ↔ pat.toList <:+: s.toList := by
  simp only [contains, Option.isSome_iff_exists]
  constructor
  · rintro ⟨p, hp⟩
    obtain ⟨hl, -⟩ := firstAt_of_splitOnceChars hp
    exact ⟨p.1, p.2, hl.symm⟩
  · rintro ⟨x, y, hl⟩
    rw [← hl]
    exact Option.ne_none_iff_exists'.mp splitOnceChars_ne_none

theorem toList_of_stripSuffix {suffix s p : String} (h : stripSuffix suffix s = some p) : s.toList = p.toList ++ suffix.toList := by
  unfold stripSuffix at h
  split at h
  · next hsuffix =>
    cases h
    obtain ⟨t, ht⟩ := List.isSuffixOf_iff_suffix.mp hsuffix
    rw [← ht]
    simp
  · cases h

/-- A suffix is not stripped from a text that ends in another character. -/
theorem stripSuffix_eq_none {suffix s : String} {l : List Char} {d c : Char} (hsuffix : suffix.toList.getLast? = some d)
    (hs : s.toList = l ++ [c]) (hne : d ≠ c) : stripSuffix suffix s = none := by
  unfold stripSuffix
  refine if_neg fun hsuff => ?_
  obtain ⟨t, ht⟩ := List.isSuffixOf_iff_suffix.mp hsuff
  have hlast := congrArg List.getLast? ht
  rw [hs, List.getLast?_append, hsuffix, List.getLast?_concat, Option.some_or, Option.some.injEq] at hlast
  exact hne hlast

/-- A text whose last character is no digit is no number. -/
theorem parseUnsigned_of_last {s : String} {l : List Char} {c : Char} (hs : s.toList = l ++ [c]) (hc : isDigit c = false)
    (bits : Nat) : parseUnsigned bits s = none := by
  unfold parseUnsigned
  rw [hs]
  have hlast : ∀ l : List Char, (l ++ [c]).all isDigit = false := by
    intro l
    simp [hc]
  cases l with
  | nil =>
    rw [List.nil_append]
    split
    · next rest heq =>
      cases heq
      rfl
    · simp [hc]
  | cons a l =>
    rw [List.cons_append]
    split
    · next rest heq =>
      cases heq
      simp [hlast l]
    · have := hlast (a :: l)
      rw [List.cons_append] at this
      simp [this]

/-- A text that ends in a character that is no white space still does so when it is trimmed. -/
theorem trim_of_last {s : String} {l : List Char} {c : Char} (hs : s.toList = l ++ [c]) (hc : isWhitespace c = false) :
    ∃ l', (trim s).toList = l' ++ [c] := by
  obtain ⟨l', hl'⟩ : ∃ l', (l ++ [c]).dropWhile isWhitespace = l' ++ [c] := by
    rw [List.dropWhile_append]
    split
    · exact ⟨[], by simp [hc]⟩
    · exact ⟨_, rfl⟩
  exact ⟨l', by simp [trim, trimChars, hs, hl', hc]⟩


/-! ## Decimal numbers -/

/-- A digit is no white space. -/
theorem isWhitespace_of_isDigit {c : Char} (h : isDigit c = true) : isWhitespace c = false := by
  simp only [isDigit, Bool.and_eq_true, decide_eq_true_eq] at h
  simp only [isWhitespace, Bool.or_eq_false_iff, Bool.and_eq_false_iff, decide_eq_false_iff_not]
  omega

theorem isDigit_of_mem_repr {n : ℕ} {c : Char} (h : c ∈ n.repr.toList) : isDigit c = true := by
  rw [Nat.toList_repr] at h
  have hdigit := Nat.isDigit_of_mem_toDigits (by decide) (by decide) h
  simp only [Char.isDigit, Bool.and_eq_true, decide_eq_true_eq, ge_iff_le, UInt32.le_iff_toNat_le] at hdigit
  simp only [isDigit, Bool.and_eq_true, decide_eq_true_eq]
  exact hdigit

theorem not_mem_repr {n : ℕ} {c : Char} (h : isDigit c = false) : c ∉ n.repr.toList := by
  intro hmem
  rw [isDigit_of_mem_repr hmem] at h
  cases h

/-- The number that digits stand for. -/
def digitsValue (l : List Char) : ℕ := l.foldl (fun acc c => acc * 10 + (c.toNat - 48)) 0

/-- The digits of a number stand for it. -/
theorem digitsValue_repr (n : ℕ) : digitsValue n.repr.toList = n := by
  have hten := @Nat.ofDigitChars_ten_toDigits n
  have hstep : (fun (acc : ℕ) (c : Char) => acc * 10 + (c.toNat - 48)) = fun sofar c => 10 * sofar + (c.toNat - '0'.toNat) := by
    funext acc c
    rw [Nat.mul_comm]
    rfl
  rwa [Nat.ofDigitChars_eq_foldl, ← hstep, ← Nat.toList_repr] at hten

/-- A text of digits, and at least one. -/
structure IsDigits (l : List Char) : Prop where
  ne_nil : l ≠ []
  digits : ∀ c ∈ l, isDigit c = true

theorem isDigits_repr (n : ℕ) : IsDigits n.repr.toList where
  ne_nil := by
    rw [Nat.toList_repr]
    exact Nat.toDigits_ne_nil
  digits := fun _ hc => isDigit_of_mem_repr hc

/-- Digits start with no sign. -/
theorem IsDigits.not_mem {l : List Char} (h : IsDigits l) {c : Char} (hc : isDigit c = false) : c ∉ l := by
  intro hmem
  rw [h.digits c hmem] at hc
  cases hc

/-- Digits are read as their number where it is in range. -/
theorem parseUnsigned_of_digits {bits : ℕ} {s : String} (h : IsDigits s.toList) :
    parseUnsigned bits s = if digitsValue s.toList < 2 ^ bits then some (digitsValue s.toList) else none := by
  have hempty : s.toList.isEmpty = false := by simp [h.ne_nil]
  have hall : s.toList.all isDigit = true := List.all_eq_true.mpr h.digits
  unfold parseUnsigned
  split
  · next rest hplus => exact absurd (hplus ▸ List.mem_cons_self) (h.not_mem (c := '+') (by decide))
  · dsimp only
    rw [hempty, hall]
    rfl

/-- Digits are read as a signed number where it is in range. -/
theorem parseSigned_of_digits {bits : ℕ} {s : String} (h : IsDigits s.toList) :
    parseSigned bits s = if digitsValue s.toList < 2 ^ (bits - 1) then some (digitsValue s.toList : Int) else none := by
  have hempty : s.toList.isEmpty = false := by simp [h.ne_nil]
  have hall : s.toList.all isDigit = true := List.all_eq_true.mpr h.digits
  unfold parseSigned
  split
  · next heq =>
    split at heq
    · next rest hplus => exact absurd (hplus ▸ List.mem_cons_self) (h.not_mem (c := '+') (by decide))
    · next rest hminus => exact absurd (hminus ▸ List.mem_cons_self) (h.not_mem (c := '-') (by decide))
    · cases heq
      rw [hempty, hall]
      rfl

/-- Digits are trimmed already. -/
theorem IsDigits.trimChars {l : List Char} (h : IsDigits l) : trimChars l = l := by
  have hnone : ∀ l : List Char, (∀ c ∈ l, isDigit c = true) → l.dropWhile isWhitespace = l := by
    intro l hl
    cases l with
    | nil => rfl
    | cons c l => exact List.dropWhile_cons_of_neg (by simp [isWhitespace_of_isDigit (hl c List.mem_cons_self)])
  exact trimChars_eq_self_iff.mpr ⟨hnone _ h.digits, hnone _ fun c hc => h.digits c (List.mem_reverse.mp hc)⟩

/-- A number is read as it is written. -/
theorem parseUnsigned_repr {bits n : ℕ} (h : n < 2 ^ bits) : parseUnsigned bits n.repr = some n := by
  rw [parseUnsigned_of_digits (isDigits_repr n), digitsValue_repr, if_pos h]

end Text
