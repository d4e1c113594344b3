import WebPipe.JsonEquality
import WebPipe.Error
import WebPipe.Slices

/-!
# The `assert` middleware

`middleware/assert.rs`: a schema is read off a text, and the state is checked against it.
-/

namespace WebPipe

/-! ## Schemas -/

/-- `ObjectField`. -/
structure ObjectField (S : Type) where
  name : String
  isOptional : Bool
  schema : S

/-- `AssertSchema`. -/
inductive AssertSchema where
  | unknown
  | null
  | bool
  | number
  | string (min max : Option ℕ)
  | email
  | literal (v : Value)
  | array (items : AssertSchema)
  | object (fields : List (ObjectField AssertSchema))
  | union (options : List AssertSchema)

/-- `ValidationIssue`. -/
structure ValidationIssue where
  path : String
  message : String

/-! ## Checking a value -/

/-- `Value::is_null`. -/
def Value.isNull : Value → Bool
  | .null => true
  | _ => false

/-- `Value::is_number`. -/
def Value.isNumber : Value → Bool
  | .number _ => true
  | _ => false

/-- `type_name`. -/
def typeName : Value → String
  | .null => "null"
  | .bool _ => "boolean"
  | .number _ => "number"
  | .string _ => "string"
  | .array _ => "array"
  | .object _ => "object"

/-- `type_issue`. -/
def typeIssue (path expected : String) (actual : Value) : ValidationIssue :=
  { path := path, message := s!"Expected {expected} at {path}, got {typeName actual}" }

section Validate

-- the `Debug` text of a string
variable (debugText : String → String)

/-- `display_json`. -/
def displayJson : Value → String
  | .string s => debugText s
  | other => other.toJson

/-- The check of a type: the value is of it, or the issue names it. -/
def requireType (ok : Bool) (path expected : String) (value : Value) : Except ValidationIssue Unit :=
  if ok then .ok () else .error (typeIssue path expected value)

/-- The items of an array, each under its index. -/
def validateItems (validate : Value → String → Except ValidationIssue Unit) (path : String) :
    ℕ → List Value → Except ValidationIssue Unit
  | _, [] => .ok ()
  | idx, item :: rest => do
    validate item s!"{path}[{idx}]"
    validateItems validate path (idx + 1) rest

mutual

/-- `validate_value`. -/
def validateValue (value : Value) : AssertSchema → String → Except ValidationIssue Unit
  | .unknown, _ => .ok ()
  | .null, path => requireType value.isNull path "null" value
  | .bool, path => requireType value.asBool.isSome path "boolean" value
  | .number, path => requireType value.isNumber path "number" value
  | .string min max, path =>
    match value with
    | .string s =>
      let len := s.toList.length
      match min.filter fun m => decide (len < m) with
      | some min => .error { path := path, message := s!"Expected string at {path} to be at least {min} characters" }
      | none =>
        match max.filter fun m => decide (m < len) with
        | some max => .error { path := path, message := s!"Expected string at {path} to be at most {max} characters" }
        | none => .ok ()
    | _ => .error (typeIssue path "string" value)
  | .email, path =>
    match value with
    | .string s =>
      if '@' ∈ s.toList ∧ '.' ∈ s.toList ∧ s.toList.head? ≠ some '@' ∧ s.toList.getLast? ≠ some '@' then .ok ()
      else .error { path := path, message := s!"Expected valid email at {path}" }
    | _ => .error (typeIssue path "email string" value)
  | .literal expected, path =>
    if value.same expected then .ok ()
    else .error { path := path, message := s!"Expected literal {displayJson debugText expected} at {path}, got {typeName value}" }
  | .array itemSchema, path =>
    match value with
    | .array items => validateItems (fun item childPath => validateValue item itemSchema childPath) path 0 items
    | _ => .error (typeIssue path "array" value)
  | .object fields, path =>
    match value with
    | .object members => validateFields members fields path
    | _ => .error (typeIssue path "object" value)
  | .union options, path => validateOptions value options path []

/-- The fields of an object schema, in order. -/
def validateFields (members : Object) : List (ObjectField AssertSchema) → String → Except ValidationIssue Unit
  | [], _ => .ok ()
  | ⟨name, isOptional, schema⟩ :: rest, path => do
    let childPath := if path = "$" then s!"$.{name}" else s!"{path}.{name}"
    match IndexMap.get members name with
    | some child => validateValue child schema childPath
    | none =>
      if isOptional then .ok () else .error { path := childPath, message := s!"Missing required field {childPath}" }
    validateFields members rest path

/-- The options of a union, with the messages of those that failed. -/
def validateOptions (value : Value) : List AssertSchema → String → List String → Except ValidationIssue Unit
  | [], path, messages =>
    let joined := "; ".intercalate messages
    .error { path := path, message := s!"Value at {path} did not match any union member: {joined}" }
  | option :: rest, path, messages =>
    match validateValue value option path with
    | .ok () => .ok ()
    | .error issue => validateOptions value rest path (messages ++ [issue.message])

end

end Validate

/-! ## Words

The parser works on the characters that are left. -/

/-- How a parse fails: with a message, or, in the model, with its fuel spent. -/
inductive ParseFailure where
  | message (text : String)
  | outOfFuel
deriving DecidableEq, Repr

/-- `Err` with a message. -/
def reject {α : Type} (text : String) : Except ParseFailure α := .error (.message text)

/-- `is_ident_start`. -/
def isIdentStart (c : Char) : Bool := (65 ≤ c.toNat && c.toNat ≤ 90) || (97 ≤ c.toNat && c.toNat ≤ 122) || c = '_'

/-- `is_ident_continue`. -/
def isIdentContinue (c : Char) : Bool := Text.isAsciiAlphanumeric c || c = '_' || c = '-'

/-- `skip_ws`. -/
def skipWs (l : List Char) : List Char := l.dropWhile Text.isWhitespace

/-- `eat`. -/
def eat (expected : Char) : List Char → Option (List Char)
  | [] => none
  | c :: l => if c = expected then some l else none

/-- What an error says of the next character. -/
def peekText (l : List Char) : String :=
  match l with
  | c :: _ => String.singleton c
  | [] => "end of schema"

/-- `expect`. -/
def expect (expected : Char) (l : List Char) : Except ParseFailure (List Char) :=
  match eat expected (skipWs l) with
  | some rest => .ok rest
  | none => reject s!"expected '{expected}', got '{peekText (skipWs l)}'"

/-- `skip_ws_and_commas`, with one unit of fuel for each comma. -/
def skipWsAndCommasLoop : ℕ → List Char → List Char
  | 0, l => skipWs l
  | n + 1, l =>
    match eat ',' (skipWs l) with
    | some rest => skipWsAndCommasLoop n rest
    | none => skipWs l

/-- `skip_ws_and_commas`. -/
def skipWsAndCommas (l : List Char) : List Char := skipWsAndCommasLoop l.length l

/-- `consume_ellipsis`. -/
def consumeEllipsis (l : List Char) : Option (List Char) := if "...".toList.isPrefixOf l then some (l.drop 3) else none

/-- The character that an escape stands for. -/
def unescape : Char → Option Char
  | '"' => some '"'
  | '\\' => some '\\'
  | '/' => some '/'
  | 'n' => some '\n'
  | 'r' => some '\r'
  | 't' => some '\t'
  | _ => none

/-- The characters of a string up to its closing quote. -/
def parseStringChars (out : List Char) : List Char → Except ParseFailure (String × List Char)
  | [] => reject "unterminated string literal"
  | c :: l =>
    if c = '"' then .ok (String.ofList out, l)
    else if c = '\\' then
      match l with
      | [] => reject "unterminated string escape"
      | escaped :: l =>
        match unescape escaped with
        | some c => parseStringChars (out ++ [c]) l
        | none => reject s!"unsupported string escape '\\{escaped}'"
    else parseStringChars (out ++ [c]) l

/-- `parse_string`. -/
def parseString (l : List Char) : Except ParseFailure (String × List Char) := do
  let l ← expect '"' l
  parseStringChars [] l

/-- `parse_identifier`: the first character is one, whatever it is. -/
def parseIdentifier : List Char → String × List Char
  | [] => ("", [])
  | c :: l => (String.ofList (c :: l.takeWhile isIdentContinue), l.dropWhile isIdentContinue)

/-- `parse_key`. -/
def parseKey (l : List Char) : Except ParseFailure (String × List Char) :=
  match skipWs l with
  | [] => reject "expected object field name, got end of schema"
  | c :: rest =>
    if c = '"' then parseString (c :: rest)
    else if isIdentStart c then .ok (parseIdentifier (c :: rest))
    else reject s!"expected object field name, got '{c}'"

/-- A bound of a string range, when there is one. -/
def parseBound (raw bound : List Char) : Except ParseFailure (Option ℕ) :=
  if bound = [] then .ok none
  else
    match Text.parseUnsigned 64 (String.ofList bound) with
    | some n => .ok (some n)
    | none => reject s!"invalid string range '{String.ofList raw}'"

/-- The bounds in the text of a range. -/
def parseRangeText (raw : List Char) : Except ParseFailure (Option ℕ × Option ℕ) :=
  match (splitText "..".toList raw).map Text.trimChars with
  | [single] =>
    if single = [] then reject s!"invalid string range '{String.ofList raw}'"
    else (parseBound raw single).map fun value => (value, value)
  | [min, max] => do
    let min ← parseBound raw min
    let max ← parseBound raw max
    pure (min, max)
  | _ => reject s!"invalid string range '{String.ofList raw}'"

/-- `parse_optional_range`. -/
def parseOptionalRange (l : List Char) : Except ParseFailure ((Option ℕ × Option ℕ) × List Char) :=
  match eat '(' (skipWs l) with
  | none => .ok ((none, none), skipWs l)
  | some l => do
    let l := skipWs l
    let raw := Text.trimChars (l.takeWhile (· ≠ ')'))
    let rest ← expect ')' (l.dropWhile (· ≠ ')'))
    let range ← parseRangeText raw
    pure (range, rest)

/-- The digits behind a dot, where there is one. -/
def spanFraction (l : List Char) : List Char × List Char :=
  match l with
  | [] => ([], [])
  | c :: rest => if c = '.' then (c :: rest.takeWhile Text.isDigit, rest.dropWhile Text.isDigit) else ([], c :: rest)

/-- The extent of a number without a sign: digits, and digits behind a dot. -/
def spanDecimal (l : List Char) : List Char × List Char :=
  let fraction := spanFraction (l.dropWhile Text.isDigit)
  (l.takeWhile Text.isDigit ++ fraction.1, fraction.2)

/-- The extent of a number. -/
def spanNumber (l : List Char) : List Char × List Char :=
  match l with
  | [] => ([], [])
  | c :: rest => if c = '-' then (c :: (spanDecimal rest).1, (spanDecimal rest).2) else spanDecimal (c :: rest)

/-! ## The grammar

The rules that call each other take the call as an argument: which rule, and on what text. -/

/-- What a rule of the grammar answers: a schema, and the text that is left. -/
abbrev Parsed : Type := Except ParseFailure (AssertSchema × List Char)

/-- The rules, and the loops of the rules with what they have read. -/
inductive SchemaRule where
  | union
  | options (options : List AssertSchema)
  | primary
  | fields (fields : List (ObjectField AssertSchema))
  | array

section Parse

-- `str::parse` of an `f64`, where the result is finite
variable (parseF64 : String → Option FloatText)

/-- `parse_number_literal`. -/
def parseNumberLiteral (l : List Char) : Parsed :=
  match parseF64 (String.ofList (spanNumber l).1) with
  | some x => .ok (.literal (.number (.float x)), (spanNumber l).2)
  | none => reject s!"invalid number literal '{String.ofList (spanNumber l).1}'"

/-- `parse_named_type_or_literal`. -/
def parseNamedTypeOrLiteral (l : List Char) : Parsed :=
  let (ident, rest) := parseIdentifier l
  if ident = "unknown" ∨ ident = "any" then .ok (.unknown, rest)
  else if ident = "null" then .ok (.null, rest)
  else if ident = "bool" ∨ ident = "boolean" then .ok (.bool, rest)
  else if ident = "number" then .ok (.number, rest)
  else if ident = "email" then .ok (.email, rest)
  else if ident = "true" then .ok (.literal (.bool true), rest)
  else if ident = "false" then .ok (.literal (.bool false), rest)
  else if ident = "string" then (parseOptionalRange rest).map fun p => (.string p.1.1 p.1.2, p.2)
  else reject s!"unknown assert type '{ident}'"

/-- The schema of a union with these options. -/
def unionOf : List AssertSchema → AssertSchema
  | [schema] => schema
  | options => .union options

variable (call : SchemaRule → List Char → Parsed)

/-- `parse_union`. -/
def parseUnion (l : List Char) : Parsed := do
  let (first, l) ← call .primary l
  call (.options [first]) l

/-- The loop of `parse_union`. -/
def parseOptions (options : List AssertSchema) (l : List Char) : Parsed :=
  match eat '|' (skipWs l) with
  | none => .ok (unionOf options, skipWs l)
  | some l => do
    let (option, l) ← call .primary l
    call (.options (options ++ [option])) l

/-- `parse_primary`. -/
def parsePrimary (l : List Char) : Parsed :=
  match skipWs l with
  | [] => reject "unexpected end of schema"
  | c :: rest =>
    if c = '\x7b' then call (.fields []) rest
    else if c = '[' then call .array rest
    else if c = '"' then (parseString (c :: rest)).map fun p => (.literal (.string p.1), p.2)
    else if c = '-' ∨ Text.isDigit c then parseNumberLiteral parseF64 (c :: rest)
    else if isIdentStart c then parseNamedTypeOrLiteral (c :: rest)
    else reject s!"unexpected token '{c}'"

/-- The end of an object, or its next field. -/
def closeOr (fields : List (ObjectField AssertSchema)) (l : List Char) (next : List Char → Parsed) : Parsed :=
  match eat '\x7d' (skipWsAndCommas l) with
  | some rest => .ok (.object fields, rest)
  | none => next (skipWsAndCommas l)

/-- The name of a field up to its colon, and whether it is optional. -/
def parseFieldName (l : List Char) : Except ParseFailure ((String × Bool) × List Char) := do
  let (name, l) ← parseKey l
  match eat '?' (skipWs l) with
  | some l => do
    let l ← expect ':' (skipWs l)
    pure ((name, true), l)
  | none => do
    let l ← expect ':' (skipWs l)
    pure ((name, false), l)

/-- The loop of `parse_object`, behind the opening brace. -/
def parseFields (fields : List (ObjectField AssertSchema)) (l : List Char) : Parsed :=
  closeOr fields l fun l =>
    match consumeEllipsis l with
    | some l => closeOr fields l fun l => call (.fields fields) l
    | none => do
      let ((name, isOptional), l) ← parseFieldName l
      let (schema, l) ← call .union l
      let fields := fields ++ [{ name := name, isOptional := isOptional, schema := schema }]
      closeOr fields l fun l => call (.fields fields) l

/-- `parse_array`, behind the opening bracket. -/
def parseArray (l : List Char) : Parsed :=
  match eat ']' (skipWs l) with
  | some rest => .ok (.array .unknown, rest)
  | none => do
    let (item, l) ← call .union (skipWs l)
    let rest ← expect ']' (skipWsAndCommas l)
    pure (.array item, rest)

/-- One rule. -/
def parseRule (rule : SchemaRule) (l : List Char) : Parsed :=
  match rule with
  | .union => parseUnion call l
  | .options options => parseOptions call options l
  | .primary => parsePrimary parseF64 call l
  | .fields fields => parseFields call fields l
  | .array => parseArray call l

/-- The rules with a number of calls nested in each other. -/
def runRule : ℕ → SchemaRule → List Char → Parsed
  | 0 => fun _ _ => .error .outOfFuel
  | n + 1 => parseRule parseF64 (runRule n)

/-- The calls that a rule needs at most on a text: three for each character that is left. -/
def SchemaRule.cost (rule : SchemaRule) (l : List Char) : ℕ :=
  3 * l.length + match rule with
    | .union => 1
    | .array => 2
    | _ => 0

/-- `Parser::parse`. -/
def parseSchema (input : String) : Except ParseFailure AssertSchema := do
  let (schema, l) ← runRule parseF64 (SchemaRule.union.cost input.toList + 1) .union input.toList
  match skipWs l with
  | [] => pure schema
  | c :: _ => reject s!"unexpected token '{c}'"

end Parse

/-! ## The middleware -/

/-- The text of a failed parse. -/
def ParseFailure.text : ParseFailure → String
  | .message text => text
  | .outOfFuel => ""

/-- `make_assertion_error`. -/
def makeAssertionError (path message : String) : Value :=
  let field := if "$.".toList.isPrefixOf path.toList then String.ofList (path.toList.drop 2) else path
  .object [("errors", .array [.object [("type", .string "assertionError"), ("field", .string field), ("context", .string field),
    ("rule", .string "assert"), ("code", .string "assert_failed"), ("message", .string message)]])]

/-- `AssertMiddleware::execute`, on the state. -/
def AssertMiddleware.execute (parseF64 : String → Option FloatText) (debugText : String → String) (config : String) (state : Value) :
    Except WebPipeError Value :=
  match parseSchema parseF64 config with
  | .error failure => .error (.plain .middlewareExecutionError s!"assert schema parse error: {failure.text}")
  | .ok schema =>
    match validateValue debugText state schema "$" with
    | .ok () => .ok state
    | .error issue => .ok (makeAssertionError issue.path issue.message)

end WebPipe
