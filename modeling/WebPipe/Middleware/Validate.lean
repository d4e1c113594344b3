import WebPipe.Json
import WebPipe.Slices

/-!
# The `validate` middleware

`middleware/validate.rs`: rules are read off a text line by line, and the members of the body are checked against them in order. Nothing
is returned where the source slices a text at offsets that do not fit.
-/

namespace WebPipe

/-- The types that a rule asks for. -/
inductive RuleKind where
  | string | email | boolean | number
deriving DecidableEq, Repr

/-- `Rule`. -/
structure Rule where
  field : String
  kind : RuleKind
  min : Option ℕ
  max : Option ℕ
deriving DecidableEq, Repr

/-! ## Reading rules -/

/-- `str::rfind` of a character: the byte offset of its last occurrence. -/
def rfind (c : Char) (l : List Char) : Option Nat :=
  if c ∈ l then some (utf8Len ((l.reverse.dropWhile (· != c)).drop 1).reverse) else none

/-- `str::trim_end_matches` of a character. -/
def trimEndChar (c : Char) (l : List Char) : List Char := (l.reverse.dropWhile (· == c)).reverse

/-- `trim_wrapping_braces`. -/
def trimWrappingBraces (s : List Char) : Option (List Char) :=
  let t := Text.trimChars s
  if t.head? = some '\x7b' ∧ t.getLast? = some '\x7d' then slice 1 (utf8Len t - 1) t else some t

/-- `str::parse` of a `usize`, after trimming. -/
def parseUsize (l : List Char) : Option ℕ := Text.parseUnsigned 64 (String.ofList (Text.trimChars l))

/-- `parse_range`. -/
def parseRange (spec : List Char) : Option ℕ × Option ℕ :=
  match splitText "..".toList spec with
  | [low, high] => (parseUsize low, parseUsize high)
  | [exact] => (parseUsize exact, parseUsize exact)
  | _ => (none, none)

/-- The bounds of a string rule: what stands between the first opening and the last closing bracket. -/
def parseBounds (rhs : List Char) : Option (Option ℕ × Option ℕ) :=
  match find '(' rhs, rfind ')' rhs with
  | some lp, some rp => (slice (lp + 1) rp rhs).map parseRange
  | _, _ => some (none, none)

/-- What is read of a line. -/
def ruleLine (rawLine : List Char) : List Char := trimEndChar ',' (Text.trimChars rawLine)

/-- The rule that stands on the right of a colon. -/
def parseRhs (field : String) (rhs : List Char) : Option (Option Rule) :=
  if "string".toList.isPrefixOf rhs then (parseBounds rhs).map fun bounds => some { field, kind := .string, min := bounds.1, max := bounds.2 }
  else if "email".toList.isPrefixOf rhs then some (some { field, kind := .email, min := none, max := none })
  else if "boolean".toList.isPrefixOf rhs || "bool".toList.isPrefixOf rhs then
    some (some { field, kind := .boolean, min := none, max := none })
  else if "number".toList.isPrefixOf rhs then some (some { field, kind := .number, min := none, max := none })
  else some none

/-- One turn of the loop of `parse_rules`: there may be no rule on a line. -/
def parseLine (rawLine : List Char) : Option (Option Rule) :=
  let line := ruleLine rawLine
  if line = [] then some none
  else
    match find ':' line with
    | none => some none
    | some colonPos => do
      let field ← slice 0 colonPos line
      let rhs ← sliceFrom (colonPos + 1) line
      parseRhs (String.ofList (Text.trimChars field)) (Text.trimChars rhs)

/-- The rules of some lines, in order. -/
def parseLines : List (List Char) → Option (List Rule)
  | [] => some []
  | line :: rest => do
    let rule ← parseLine line
    let rules ← parseLines rest
    pure (rule.toList ++ rules)

/-- `parse_rules`. -/
def parseRules (cfg : String) : Option (List Rule) := do
  let body ← trimWrappingBraces cfg.toList
  parseLines (lines body)

/-! ## Checking a body -/

/-- `make_error`. -/
def makeError (field rule message : String) : Value :=
  .object [("errors", .array [.object [("type", .string "validationError"), ("field", .string field), ("context", .string field),
    ("rule", .string rule), ("message", .string message)]])]

/-- The shape of an email address. -/
def isEmail (s : String) : Bool :=
  '@' ∈ s.toList && '.' ∈ s.toList && s.toList.head? != some '@' && s.toList.getLast? != some '@'

/-- Why a length does not fit: the name of the rule and the message. -/
def lengthError (rule : Rule) (len : ℕ) : Option (String × String) :=
  (rule.min.bind fun min =>
    if len < min then some ("minLength", s!"Field '{rule.field}' must be at least {min} characters") else none).or
  (rule.max.bind fun max =>
    if max < len then some ("maxLength", s!"Field '{rule.field}' must be at most {max} characters") else none)

/-- Why a member of the body, which may be missing, breaks a rule. -/
def ruleError (rule : Rule) (val : Option Value) : Option (String × String) :=
  match rule.kind with
  | .string =>
    match val with
    | some (.string s) =>
      if s ≠ "" then lengthError rule s.length
      else some ("required", s!"Field '{rule.field}' is required and must be a non-empty string")
    | _ => some ("required", s!"Field '{rule.field}' is required and must be a non-empty string")
  | .boolean =>
    match val with
    | some (.bool _) => none
    | _ => some ("required", s!"Field '{rule.field}' is required and must be a boolean")
  | .number =>
    match val with
    | some (.number _) => none
    | _ => some ("required", s!"Field '{rule.field}' is required and must be a number")
  | .email =>
    match val with
    | some (.string s) =>
      if s ≠ "" then if isEmail s then none else some ("email", s!"Field '{rule.field}' must be a valid email address")
      else some ("required", s!"Field '{rule.field}' is required and must be a valid email")
    | _ => some ("required", s!"Field '{rule.field}' is required and must be a valid email")

/-- The loop over the rules: the state after it. -/
def checkRules (obj : Object) (state : Value) : List Rule → Value
  | [] => state
  | rule :: rest =>
    match ruleError rule (IndexMap.get obj rule.field) with
    | some (name, message) => makeError rule.field name message
    | none => checkRules obj state rest

namespace Validate

/-- `execute` of the middleware: the state after it. -/
def execute (config : String) (state : Value) : Option Value := do
  let rules ← parseRules config
  if rules.isEmpty then pure state
  else
    match (state.get "body").bind Value.asObject with
    | none => pure state
    | some obj => pure (checkRules obj state rules)

end Validate

end WebPipe
