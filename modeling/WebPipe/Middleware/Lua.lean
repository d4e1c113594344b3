import Mathlib.Data.List.Sort
import WebPipe.Json

/-!
# The Lua bridge

`middleware/lua.rs`: the state goes to Lua as tables and comes back as JSON. A table is its pairs; a read of a table enumerates
them in some order.
-/

namespace WebPipe

/-- A Lua string: its text, or nothing when its bytes are no UTF-8. -/
abbrev LuaString := Option String

/-- A key of a Lua table. A float is named by the text Rust displays for it. -/
inductive LuaKey where
  | integer (i : Int)
  | string (s : LuaString)
  | number (text : String)
  | other
deriving DecidableEq, Repr

/-- A Lua value; a number that is no finite float has no JSON text. -/
inductive LuaValue where
  | nil
  | boolean (b : Bool)
  | integer (i : Int)
  | number (x : Option FloatText)
  | string (s : LuaString)
  | table (pairs : List (LuaKey × LuaValue))
  | other

namespace LuaValue

/-- `Table::set`: nil removes the key. -/
def setKey (pairs : List (LuaKey × LuaValue)) (key : LuaKey) : LuaValue → List (LuaKey × LuaValue)
  | .nil => pairs.filter fun p => decide (p.1 ≠ key)
  | value => IndexMap.insert pairs key value

end LuaValue

/-! ## To Lua -/

section ToLua

-- `as_f64` of an integer that is no `i64`
variable (asF64 : Int → FloatText)

mutual

/-- `json_to_lua`. -/
def jsonToLua : Value → LuaValue
  | .null => .nil
  | .bool b => .boolean b
  | .number (.int n) => if -2 ^ 63 ≤ n ∧ n < 2 ^ 63 then .integer n else .number (some (asF64 n))
  | .number (.float x) => .number (some x)
  | .string s => .string (some s)
  | .array items => .table (itemsToLua 1 items [])
  | .object members => .table (membersToLua members [])

/-- The items of an array under the keys from an index on. -/
def itemsToLua : Int → List Value → List (LuaKey × LuaValue) → List (LuaKey × LuaValue)
  | _, [], table => table
  | i, v :: rest, table => itemsToLua (i + 1) rest (LuaValue.setKey table (.integer i) (jsonToLua v))

/-- The members of an object under their keys. -/
def membersToLua : Object → List (LuaKey × LuaValue) → List (LuaKey × LuaValue)
  | [], table => table
  | (k, v) :: rest, table => membersToLua rest (LuaValue.setKey table (.string (some k)) (jsonToLua v))

end

end ToLua

/-! ## Back -/

/-- What the scan of the keys finds: the greatest index and the number of keys, unless a key is no positive integer. -/
def scanKeys (keys : List LuaKey) : Option (Int × Int) :=
  keys.foldlM (fun (found : Int × Int) key =>
    match key with
    | .integer i => if 0 < i then some (max found.1 i, found.2 + 1) else none
    | _ => none) (0, 0)

/-- The table is read as an array. -/
def isSequence (pairs : List (LuaKey × LuaValue)) : Bool :=
  match scanKeys (pairs.map Prod.fst) with
  | some (maxIndex, count) => decide (count = maxIndex) && decide (0 < count)
  | none => false

/-- `array_items`: the pairs with an integer key, by key. -/
def arrayItems (pairs : List (LuaKey × LuaValue)) : List (Int × LuaValue) :=
  (pairs.filterMap fun p =>
    match p.1 with
    | .integer i => some (i, p.2)
    | _ => none).insertionSort fun a b => a.1 ≤ b.1

/-- `key_str`. -/
def keyText : LuaKey → String
  | .string s => s.getD "[invalid key]"
  | .integer i => toString i
  | .number text => text
  | .other => "[unsupported key]"

/-- `MAX_DEPTH`. -/
def maxLuaDepth : Nat := 20

/-- `lua_to_json_with_depth`, with as many levels left as the limit leaves. -/
def luaToJsonWithin : Nat → LuaValue → Value
  | 0, _ => .string "[max depth exceeded]"
  | _ + 1, .nil => .null
  | _ + 1, .boolean b => .bool b
  | _ + 1, .integer i => .number (.int i)
  | _ + 1, .number (some x) => .number (.float x)
  | _ + 1, .number none => .number (.int 0)
  | _ + 1, .string s => .string (s.getD "[invalid utf8]")
  | levels + 1, .table pairs =>
    if isSequence pairs then .array ((arrayItems pairs).map fun p => luaToJsonWithin levels p.2)
    else .object (pairs.foldl (fun members p => IndexMap.insert members (keyText p.1) (luaToJsonWithin levels p.2)) [])
  | _ + 1, .other => .string "[unsupported lua type]"

/-- `lua_to_json_with_depth` at a depth. -/
def luaToJsonWithDepth (value : LuaValue) (depth : Nat) : Value := luaToJsonWithin (maxLuaDepth + 1 - depth) value

/-! ## Scripts -/

mutual

/-- The same value, its tables enumerated in any order, at any depth. -/
def Enumerates : LuaValue → LuaValue → Prop
  | .table pairs, .table pairs' => ∃ pairs'', pairs''.Perm pairs' ∧ PairsEnumerate pairs pairs''
  | .table _, _ => False
  | l, l' => l = l'

/-- Pair by pair: the key, and its value in some order. -/
def PairsEnumerate : List (LuaKey × LuaValue) → List (LuaKey × LuaValue) → Prop
  | [], pairs' => pairs' = []
  | (k, v) :: rest, pairs' => ∃ v' rest', pairs' = (k, v') :: rest' ∧ Enumerates v v' ∧ PairsEnumerate rest rest'

end

/-- `execute_lua_script`: a script, as what it makes of its `request`. -/
def executeLuaScript (asF64 : Int → FloatText) (script : LuaValue → LuaValue) (input : Value) : Value :=
  luaToJsonWithDepth (script (jsonToLua asF64 input)) 0

end WebPipe
