import WebPipe.Lib.IndexMap

/-!
# JSON values

`serde_json::Value` with the accessors the executor uses and the compact text `serde_json::to_string` writes, whose length in
bytes is the size the cache accounts for. The crate is built with insertion-ordered objects (`Cargo.lock` gives it
`indexmap`).
-/

namespace WebPipe

/-- A finite `f64`, named by the text `serde_json` writes for it. -/
structure FloatText where
  text : String
  nonempty : text ≠ ""
deriving DecidableEq, Repr

/-- A JSON number: an integer (`u64` or `i64`) or a finite float. -/
inductive Number where
  | int (n : Int)
  | float (x : FloatText)
deriving DecidableEq, Repr

/-- A JSON value; an object lists its members in insertion order. -/
inductive Value where
  | null
  | bool (b : Bool)
  | number (n : Number)
  | string (s : String)
  | array (items : List Value)
  | object (members : List (String × Value))
deriving Repr

/-- The members of a JSON object. -/
abbrev Object := List (String × Value)

namespace Value

/-! ## Accessors -/

/-- The members of an object. -/
def asObject : Value → Option Object
  | .object members => some members
  | _ => none

/-- The items of an array. -/
def asArray : Value → Option (List Value)
  | .array items => some items
  | _ => none

/-- The text of a string. -/
def asStr : Value → Option String
  | .string s => some s
  | _ => none

/-- The truth value of a boolean. -/
def asBool : Value → Option Bool
  | .bool b => some b
  | _ => none

/-- The value of a number that is an unsigned 64-bit integer. -/
def asU64 : Value → Option Nat
  | .number (.int n) => if 0 ≤ n ∧ n < 2 ^ 64 then some n.toNat else none
  | _ => none

/-- The member of an object under a key. -/
def get (v : Value) (key : String) : Option Value :=
  v.asObject.bind (fun members => IndexMap.get members key)

/-! ## Text -/

/-- A hexadecimal digit. -/
def hexDigit (n : Nat) : Char :=
  if n < 10 then Char.ofNat (48 + n) else Char.ofNat (87 + n)

/-- A character inside a JSON string. -/
def escapeChar (c : Char) : String :=
  if c = '"' then "\\\""
  else if c = '\\' then "\\\\"
  else if c.toNat = 8 then "\\b"
  else if c.toNat = 9 then "\\t"
  else if c.toNat = 10 then "\\n"
  else if c.toNat = 12 then "\\f"
  else if c.toNat = 13 then "\\r"
  else if c.toNat < 32 then "\\u00" ++ String.ofList [hexDigit (c.toNat / 16), hexDigit (c.toNat % 16)]
  else String.singleton c

/-- A JSON string literal. -/
def quote (s : String) : String :=
  "\"" ++ String.join (s.toList.map escapeChar) ++ "\""

/-- The text of a number. -/
def numberText : Number → String
  | .int n => toString n
  | .float x => x.text

mutual

/-- The compact text of a value (`serde_json::to_string`, and `Display` of a value). -/
def toJson : Value → String
  | .null => "null"
  | .bool b => if b then "true" else "false"
  | .number n => numberText n
  | .string s => quote s
  | .array items => "[" ++ itemsToJson items ++ "]"
  | .object members => "\x7b" ++ membersToJson members ++ "\x7d"

/-- The items of an array, separated by commas. -/
def itemsToJson : List Value → String
  | [] => ""
  | [v] => toJson v
  | v :: rest => toJson v ++ "," ++ itemsToJson rest

/-- The members of an object, separated by commas. -/
def membersToJson : List (String × Value) → String
  | [] => ""
  | [(k, v)] => quote k ++ ":" ++ toJson v
  | (k, v) :: rest => quote k ++ ":" ++ toJson v ++ "," ++ membersToJson rest

end

example : toJson (.object [("a", .array [.number (.int 1), .null]), ("b", .string "x\ny")]) =
    "\x7b\"a\":[1,null],\"b\":\"x\\ny\"\x7d" := by decide

/-- The text of an integer is not empty. -/
theorem toString_int_ne_empty (n : Int) : (toString n : String) ≠ "" := by
  intro h
  have h' := congrArg String.toList h
  cases n with
  | ofNat n => simp [ToString.toString, Int.repr] at h'
  | negSucc n => simp [ToString.toString, Int.repr] at h'

/-- A text that is not empty has a byte. -/
theorem utf8ByteSize_pos {s : String} (h : s ≠ "") : 0 < s.utf8ByteSize :=
  Nat.pos_of_ne_zero (fun e => h (String.utf8ByteSize_eq_zero_iff.mp e))

/-- The text of a value is never empty. -/
theorem toJson_size_pos (v : Value) : 0 < (toJson v).utf8ByteSize := by
  cases v with
  | null => decide
  | bool b => cases b <;> decide
  | number n =>
    cases n with
    | int n => exact utf8ByteSize_pos (toString_int_ne_empty n)
    | float x => exact utf8ByteSize_pos x.nonempty
  | string s =>
    have : ("\"" : String).utf8ByteSize = 1 := by decide
    simp only [toJson, quote, String.utf8ByteSize_append]
    omega
  | array items =>
    have : ("[" : String).utf8ByteSize = 1 := by decide
    simp only [toJson, String.utf8ByteSize_append]
    omega
  | object members =>
    have : ("\x7b" : String).utf8ByteSize = 1 := by decide
    simp only [toJson, String.utf8ByteSize_append]
    omega

end Value

end WebPipe
