import WebPipe.Json
import WebPipe.Lib.Nom
import WebPipe.Lib.Text

/-!
# Reading JSON

`serde_json::from_str` for values: blanks between tokens, the escapes of strings, at most 127 containers around a value, and the last of
several members with one key. A number that is no 64-bit integer is named by the text it is written with.
-/

namespace WebPipe
namespace JsonText

open Nom Text

/-! ## Strings -/

/-- The value of a hexadecimal digit. -/
def hexValue (c : Char) : Option Nat :=
  if '0' ≤ c ∧ c ≤ '9' then some (c.toNat - 48)
  else if 'a' ≤ c ∧ c ≤ 'f' then some (c.toNat - 87)
  else if 'A' ≤ c ∧ c ≤ 'F' then some (c.toNat - 55)
  else none

/-- Four hexadecimal digits. -/
def codeUnit : Parser Nat
  | a :: b :: c :: d :: l =>
    match hexValue a, hexValue b, hexValue c, hexValue d with
    | some a, some b, some c, some d => .ok (((a * 16 + b) * 16 + c) * 16 + d, l)
    | _, _, _, _ => .error .error
  | _ => .error .error

/-- The character of a code unit, or of a pair of surrogates. -/
def unicodeEscape : Parser Char := do
  let n ← codeUnit
  if n < 0xD800 ∨ 0xE000 ≤ n then pure (Char.ofNat n)
  else if 0xDC00 ≤ n then fail
  else
    let _ ← tag "\\u"
    let m ← codeUnit
    if 0xDC00 ≤ m ∧ m < 0xE000 then pure (Char.ofNat (0x10000 + (n - 0xD800) * 1024 + (m - 0xDC00))) else fail

/-- A character of a string. -/
def stringChar : Parser Char
  | '\\' :: '"' :: l => .ok ('"', l)
  | '\\' :: '\\' :: l => .ok ('\\', l)
  | '\\' :: '/' :: l => .ok ('/', l)
  | '\\' :: 'b' :: l => .ok (Char.ofNat 8, l)
  | '\\' :: 'f' :: l => .ok (Char.ofNat 12, l)
  | '\\' :: 'n' :: l => .ok ('\n', l)
  | '\\' :: 'r' :: l => .ok ('\r', l)
  | '\\' :: 't' :: l => .ok ('\t', l)
  | '\\' :: 'u' :: l => unicodeEscape l
  | c :: l => if c = '\\' ∨ c = '"' ∨ c.toNat < 32 then .error .error else .ok (c, l)
  | [] => .error .error

/-- A string. -/
def string : Parser String := do
  let cs ← delimited (char '"') (many0 stringChar) (char '"')
  pure (String.ofList cs)

/-! ## Numbers -/

/-- The digits before the point: no zero stands before others. -/
def wholeDigits : Parser (List Char) := do
  let digits ← takeWhile1 isDigit
  if digits.head? = some '0' ∧ digits ≠ ['0'] then fail else pure digits

/-- The digits after the point. -/
def fraction : Parser Unit := do
  let _ ← char '.'
  let _ ← takeWhile1 isDigit
  pure ()

/-- The power of ten. -/
def exponent : Parser Unit := do
  let _ ← alt (char 'e') (char 'E')
  let _ ← opt (alt (char '+') (char '-'))
  let _ ← takeWhile1 isDigit
  pure ()

/-- The number that a text stands for; `whole` are its digits where there are no others. -/
def numberOf (text : List Char) (negative : Bool) (whole : Option (List Char)) : Option Number :=
  let float := if h : String.ofList text ≠ "" then some (.float ⟨String.ofList text, h⟩) else none
  match whole with
  | none => float
  | some digits =>
    let n := digitsValue digits
    if negative then if 0 < n ∧ n ≤ 2 ^ 63 then some (.int (-n)) else float
    else if n < 2 ^ 64 then some (.int n) else float

/-- A number. -/
def number : Parser Value := fun l =>
  let parts : Parser (Option Unit × List Char × Option Unit × Option Unit) := do
    let sign ← opt (char '-')
    let digits ← wholeDigits
    let frac ← opt fraction
    let exp ← opt exponent
    pure (sign, digits, frac, exp)
  match parts l with
  | .error e => .error e
  | .ok ((sign, digits, frac, exp), l') =>
    match numberOf (l.take (l.length - l'.length)) sign.isSome (if frac.isNone && exp.isNone then some digits else none) with
    | some n => .ok (.number n, l')
    | none => .error .error

/-! ## Values -/

/-- A word that stands for a value. -/
def word (text : String) (v : Value) : Parser Value := do
  let _ ← tag text
  pure v

/-- Parts between two brackets, with commas between them. -/
def container (openChar closeChar : Char) (part : Parser α) : Parser (List α) := do
  let _ ← char openChar
  let parts ← opt (separatedList1 (preceded multispace0 (char ',')) part)
  let _ ← preceded multispace0 (char closeChar)
  pure (parts.getD [])

/-- A member of an object. -/
def member (value : Parser Value) : Parser (String × Value) := do
  let key ← preceded multispace0 string
  let _ ← preceded multispace0 (char ':')
  let v ← value
  pure (key, v)

/-- A value that holds no other. -/
def scalar : Parser Value :=
  alt (word "null" .null) <| alt (word "true" (.bool true)) <| alt (word "false" (.bool false)) <| alt number do
    let s ← string
    pure (.string s)

/-- A value with at most so many containers around another. -/
def value : Nat → Parser Value
  | 0 => preceded multispace0 scalar
  | depth + 1 => preceded multispace0 <| alt scalar <| alt
      (do
        let items ← container '[' ']' (value depth)
        pure (.array items))
      (do
        let members ← container '\x7b' '\x7d' (member (value depth))
        pure (.object (IndexMap.insertAll [] members)))

/-- `serde_json::from_str::<Value>`, without what it says of a text that is none. -/
def fromStr (text : String) : Option Value :=
  match value 127 text.toList with
  | .ok (v, l) => if l.all isMultispace then some v else none
  | .error _ => none

/-! ## What is written is read -/

/-- Four digits are taken from the text. -/
theorem suffix_codeUnit : Suffix codeUnit := by
  intro l n r h
  match l, h with
  | a :: b :: c :: d :: l, h =>
    simp only [codeUnit] at h
    split at h
    · cases h
      exact ⟨[a, b, c, d], rfl⟩
    · cases h

theorem suffix_unicodeEscape : Suffix unicodeEscape := by
  refine suffix_codeUnit.bind fun n => ?_
  split
  · exact suffix_pure _
  · split
    · exact suffix_fail
    · refine (suffix_tag _).bind fun _ => suffix_codeUnit.bind fun m => ?_
      split
      · exact suffix_pure _
      · exact suffix_fail

theorem eats_stringChar : Eats stringChar := by
  intro l c r h
  have hone : ∀ (a : Char) (l : List Char), l <:+ a :: l ∧ l.length < (a :: l).length := fun a l => ⟨List.suffix_cons .., by simp⟩
  have htwo : ∀ (a b : Char) (l : List Char), l <:+ a :: b :: l ∧ l.length < (a :: b :: l).length := fun a b l =>
    ⟨(List.suffix_cons ..).trans (List.suffix_cons ..), by simp only [List.length_cons]; omega⟩
  unfold stringChar at h
  split at h
  case h_9 l =>
    have hsuffix := suffix_unicodeEscape _ _ _ h
    exact ⟨hsuffix.trans (htwo ..).1, Nat.lt_of_le_of_lt hsuffix.length_le (htwo ..).2⟩
  case h_10 =>
    split at h
    · cases h
    · cases h
      exact hone ..
  case h_11 => cases h
  all_goals
    cases h
    exact htwo ..

theorem hexValue_hexDigit : ∀ n < 16, hexValue (Value.hexDigit n) = some n := by decide

/-- The digits of a small code unit. -/
theorem codeUnit_hexDigits {n : Nat} (hn : n < 256) (l : List Char) :
    codeUnit ('0' :: '0' :: Value.hexDigit (n / 16) :: Value.hexDigit (n % 16) :: l) = .ok (n, l) := by
  have hzero : hexValue '0' = some 0 := by decide
  simp only [codeUnit, hzero, hexValue_hexDigit (n / 16) (by omega), hexValue_hexDigit (n % 16) (by omega)]
  congr 2
  omega

/-- A character that needs no escape is read as it stands. -/
theorem stringChar_self {c : Char} (hslash : c ≠ '\\') (hquote : c ≠ '"') (hlow : ¬ c.toNat < 32) (l : List Char) :
    stringChar (c :: l) = .ok (c, l) := by
  unfold stringChar
  split
  case h_10 h =>
    cases h
    rw [if_neg (by simp [hslash, hquote, hlow])]
  case h_11 h => cases h
  all_goals exact absurd (List.cons.inj ‹_›).1 hslash

/-- A character of a string is read as it is written. -/
theorem stringChar_escapeChar (c : Char) (l : List Char) : stringChar ((Value.escapeChar c).toList ++ l) = .ok (c, l) := by
  have hcode : ∀ n, c.toNat = n → c = Char.ofNat n := by
    rintro n rfl
    exact (Char.ofNat_toNat c).symm
  unfold Value.escapeChar
  split_ifs with hquote hslash hb ht hn hf hr hlow
  · rw [hquote]
    rfl
  · rw [hslash]
    rfl
  · rw [hcode 8 hb]
    rfl
  · rw [hcode 9 ht]
    rfl
  · rw [hcode 10 hn]
    rfl
  · rw [hcode 12 hf]
    rfl
  · rw [hcode 13 hr]
    rfl
  · have htext : ("\\u00" ++ String.ofList [Value.hexDigit (c.toNat / 16), Value.hexDigit (c.toNat % 16)]).toList ++ l =
        '\\' :: 'u' :: '0' :: '0' :: Value.hexDigit (c.toNat / 16) :: Value.hexDigit (c.toNat % 16) :: l := by simp
    rw [htext, stringChar, unicodeEscape, bind_of_ok (codeUnit_hexDigits (by omega) l), if_pos (by omega), Char.ofNat_toNat]
    rfl
  · rw [String.toList_singleton]
    exact stringChar_self hslash hquote hlow l

/-- The characters of a string are read as they are written, up to its end. -/
theorem many0_stringChar (cs l : List Char) :
    many0 stringChar (cs.flatMap (fun c => (Value.escapeChar c).toList) ++ '"' :: l) = .ok (cs, '"' :: l) := by
  induction cs with
  | nil => exact many0_of_error (by simp [stringChar])
  | cons c cs ih =>
    have hread := stringChar_escapeChar c (cs.flatMap (fun c => (Value.escapeChar c).toList) ++ '"' :: l)
    rw [List.flatMap_cons, List.append_assoc, many0_of_ok eats_stringChar.suffix hread (eats_stringChar _ _ _ hread).2, bind_of_ok ih]
    rfl

theorem toList_quote (s : String) :
    (Value.quote s).toList = '"' :: (s.toList.flatMap (fun c => (Value.escapeChar c).toList) ++ ['"']) := by
  simp [Value.quote, String.toList_join, List.flatMap_map]

/-- What starts with a quotation mark is a string. -/
theorem scalar_quote {s : String} {l r : List Char} (h : string ('"' :: l) = .ok (s, r)) :
    scalar ('"' :: l) = .ok (.string s, r) := by
  have hword : ∀ (a : Char) (t : List Char) (v : Value), a ≠ '"' → word (String.ofList (a :: t)) v ('"' :: l) = .error .error := by
    intro a t v ha
    have htag : tag (String.ofList (a :: t)) ('"' :: l) = .error .error := by
      refine tag_eq_error fun hprefix => ha ?_
      rw [String.toList_ofList] at hprefix
      exact (List.cons_prefix_cons.mp hprefix).1
    rw [word, bind_of_error htag]
  have hnumber : number ('"' :: l) = .error .error := rfl
  rw [scalar, alt_of_error (hword 'n' _ _ (by decide)), alt_of_error (hword 't' _ _ (by decide)),
    alt_of_error (hword 'f' _ _ (by decide)), alt_of_error hnumber, bind_of_ok h]
  rfl

/-- A string literal is read as it is written, and no further. -/
theorem string_quote (s : String) (l : List Char) : string ((Value.quote s).toList ++ l) = .ok (s, l) := by
  rw [toList_quote, List.cons_append, List.append_assoc, string, delimited, bind_of_ok]
  rotate_left
  · rw [bind_of_ok (char_self ..), List.singleton_append, bind_of_ok (many0_stringChar _ l), bind_of_ok (char_self ..)]
    rfl
  · rw [String.ofList_toList]
    rfl

/-- A string is read as it is written. -/
theorem fromStr_quote (s : String) : fromStr (Value.quote s) = some (.string s) := by
  have hstring := string_quote s []
  have hvalue : value 127 (Value.quote s).toList = .ok (.string s, []) := by
    rw [List.append_nil, toList_quote] at hstring
    rw [toList_quote]
    have hblank : ∀ l, multispace0 ('"' :: l) = .ok ([], '"' :: l) := fun _ => rfl
    rw [value, preceded, bind_of_ok (hblank _), alt_of_ok (scalar_quote hstring)]
  rw [fromStr, hvalue]
  rfl

end JsonText
end WebPipe
