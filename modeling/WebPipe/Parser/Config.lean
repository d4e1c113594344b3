import WebPipe.Parser.Tokens

/-!
# Configurations

`parse_config` of `ast/parser.rs` with the parsers below it, and `Display` of a configuration in `ast/fmt.rs`. A number is an `i64`; the
parser reads no sign.
-/

namespace WebPipe

/-- The value of a property. -/
inductive ConfigValue where
  | string (s : String)
  | envVar (var : String) (default : Option String)
  | boolean (b : Bool)
  | number (n : Int)
deriving DecidableEq, Repr

/-- A property of a configuration. -/
structure ConfigProperty where
  key : String
  value : ConfigValue
deriving DecidableEq, Repr

/-- A configuration. -/
structure Config where
  name : String
  properties : List ConfigProperty
deriving DecidableEq, Repr

namespace Parser

open Nom

/-- An environment variable. -/
def parseEnvVar : Parser String := preceded (char '$') parseIdentifier

/-- What stands before the default of an environment variable. -/
def defaultSeparator : Parser Unit := do
  let _ ← multispace0
  let _ ← tag "||"
  let _ ← multispace0
  pure ()

/-- A number: digits that an `i64` can hold. -/
def parseConfigNumber : Parser ConfigValue := do
  let s ← takeWhile1 Text.isDigit
  match Text.parseSigned 64 (String.ofList s) with
  | some n => pure (.number n)
  | none => fail

/-- `parse_config_value`. -/
def parseConfigValue : Parser ConfigValue :=
  -- environment variable with default
  alt (do
    let var ← parseEnvVar
    let default ← preceded defaultSeparator (between '"')
    pure (.envVar var (some default)))
  -- environment variable without default
  (alt (do let var ← parseEnvVar; pure (.envVar var none))
  -- string literal
  (alt (do let s ← between '"'; pure (.string s))
  -- boolean
  (alt (do let s ← alt (tag "true") (tag "false"); pure (.boolean (s = "true")))
  -- number
  parseConfigNumber)))

/-- `parse_config_property`. -/
def parseConfigProperty : Parser ConfigProperty := do
  let _ ← multispace0
  let key ← parseIdentifier
  let _ ← multispace0
  let _ ← char ':'
  let _ ← multispace0
  let value ← parseConfigValue
  pure { key, value }

/-- `parse_config`. -/
def parseConfig : Parser Config := do
  let _ ← tag "config"
  let _ ← multispace0
  let name ← parseIdentifier
  let _ ← multispace0
  let _ ← char '\x7b'
  let _ ← multispace0
  let properties ← many0 parseConfigProperty
  let _ ← multispace0
  let _ ← char '\x7d'
  let _ ← multispace0
  pure { name, properties }

end Parser

/-! ## The printed form -/

/-- `Display` of a value. -/
def ConfigValue.display : ConfigValue → List Char
  | .string s => '"' :: (s.toList ++ ['"'])
  | .envVar var (some default) => '$' :: (var.toList ++ (" || \"".toList ++ (default.toList ++ ['"'])))
  | .envVar var none => '$' :: var.toList
  | .boolean b => (if b then "true" else "false").toList
  | .number n => (toString n).toList

/-- `Display` of a property. -/
def ConfigProperty.display (p : ConfigProperty) : List Char := p.key.toList ++ (": ".toList ++ p.value.display)

/-- `Display` of a configuration: a property on each line. -/
def Config.display (c : Config) : List Char :=
  "config ".toList ++ (c.name.toList ++ (" \x7b\n".toList ++ (c.properties.flatMap (fun p => "  ".toList ++ (p.display ++ ['\n'])) ++ ['\x7d'])))

example : (Parser.parseConfig "config pg \x7b host: $HOST || \"db\"\n port: 5432 ssl: falsedebug: \"\" \x7d ".toList).map (·.1.properties) =
    .ok [⟨"host", .envVar "HOST" (some "db")⟩, ⟨"port", .number 5432⟩, ⟨"ssl", .boolean false⟩, ⟨"debug", .string ""⟩] := by
  decide +kernel

end WebPipe
