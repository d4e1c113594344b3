import Mathlib.Data.List.Basic

/-!
# Bytes as text

`String::from_utf8_lossy`: bytes are decoded as UTF-8, and every longest part of a sequence that cannot be completed becomes U+FFFD.
-/

namespace Text

/-- What stands for bytes that are no text. -/
def replacement : Char := Char.ofNat 0xFFFD

/-- A byte that continues a sequence. -/
def isContinuation (b : UInt8) : Bool := 0x80 ≤ b.toNat && b.toNat ≤ 0xBF

/-- The payload of a byte that continues a sequence, after that of the bytes before it. -/
def continued (n : Nat) (b : UInt8) : Nat := n * 64 + b.toNat % 64

/-- What may follow the first byte of a sequence of three bytes. -/
def isSecondOfThree (first second : UInt8) : Bool :=
  if first.toNat = 0xE0 then 0xA0 ≤ second.toNat && second.toNat ≤ 0xBF
  else if first.toNat = 0xED then 0x80 ≤ second.toNat && second.toNat ≤ 0x9F
  else isContinuation second

/-- What may follow the first byte of a sequence of four bytes. -/
def isSecondOfFour (first second : UInt8) : Bool :=
  if first.toNat = 0xF0 then 0x90 ≤ second.toNat && second.toNat ≤ 0xBF
  else if first.toNat = 0xF4 then 0x80 ≤ second.toNat && second.toNat ≤ 0x8F
  else isContinuation second

/-- The character that starts with a byte, and the bytes after it. -/
def decodeChar (first : UInt8) (rest : List UInt8) : Char × List UInt8 :=
  if first.toNat < 0x80 then (Char.ofNat first.toNat, rest)
  else if 0xC2 ≤ first.toNat ∧ first.toNat ≤ 0xDF then
    match rest with
    | b :: rest' => if isContinuation b then (Char.ofNat (continued (first.toNat % 32) b), rest') else (replacement, rest)
    | [] => (replacement, [])
  else if 0xE0 ≤ first.toNat ∧ first.toNat ≤ 0xEF then
    match rest with
    | b :: c :: rest' =>
      if !isSecondOfThree first b then (replacement, rest)
      else if !isContinuation c then (replacement, c :: rest')
      else (Char.ofNat (continued (continued (first.toNat % 16) b) c), rest')
    | [b] => if isSecondOfThree first b then (replacement, []) else (replacement, [b])
    | [] => (replacement, [])
  else if 0xF0 ≤ first.toNat ∧ first.toNat ≤ 0xF4 then
    match rest with
    | b :: c :: d :: rest' =>
      if !isSecondOfFour first b then (replacement, rest)
      else if !isContinuation c then (replacement, c :: d :: rest')
      else if !isContinuation d then (replacement, d :: rest')
      else (Char.ofNat (continued (continued (continued (first.toNat % 8) b) c) d), rest')
    | [b, c] =>
      if !isSecondOfFour first b then (replacement, rest)
      else if !isContinuation c then (replacement, [c])
      else (replacement, [])
    | [b] => if isSecondOfFour first b then (replacement, []) else (replacement, [b])
    | [] => (replacement, [])
  else (replacement, rest)

theorem decodeChar_length_le (first : UInt8) (rest : List UInt8) : (decodeChar first rest).2.length ≤ rest.length := by
  unfold decodeChar
  repeat' split
  all_goals simp only [List.length_cons, List.length_nil]
  all_goals omega

/-- `String::from_utf8_lossy`. -/
def fromUtf8Lossy : List UInt8 → List Char
  | [] => []
  | b :: rest => (decodeChar b rest).1 :: fromUtf8Lossy (decodeChar b rest).2
termination_by l => l.length
decreasing_by
  have := decodeChar_length_le b rest
  simp only [List.length_cons]
  omega

/-- The bytes of an ASCII text. -/
def asciiBytes (l : List Char) : List UInt8 := l.map fun c => UInt8.ofNat c.toNat

/-- ASCII text is read as it is. -/
theorem fromUtf8Lossy_ascii {l : List Char} (h : ∀ c ∈ l, c.toNat < 128) : fromUtf8Lossy (asciiBytes l) = l := by
  induction l with
  | nil =>
    unfold fromUtf8Lossy
    rfl
  | cons c l ih =>
    have hc := h c (List.mem_cons_self ..)
    have hbyte : (UInt8.ofNat c.toNat).toNat = c.toNat := by
      rw [UInt8.toNat_ofNat']
      omega
    have hdecode : decodeChar (UInt8.ofNat c.toNat) (asciiBytes l) = (c, asciiBytes l) := by
      unfold decodeChar
      rw [hbyte, if_pos hc, Char.ofNat_toNat]
    unfold asciiBytes fromUtf8Lossy
    rw [List.map_cons]
    dsimp only
    rw [← asciiBytes, hdecode, ih fun d hd => h d (List.mem_cons_of_mem _ hd)]

end Text
