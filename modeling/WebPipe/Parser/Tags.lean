import WebPipe.Ast
import WebPipe.Parser.Tokens

/-!
# Tag expressions

The parser of tag expressions in `ast/parser.rs`, and their printed form in `ast/fmt.rs`. The printer asks the standard library which
characters are letters or digits of any script; the table it uses is a parameter.
-/

namespace WebPipe
namespace Parser

open Nom

/-- `parse_tag_argument`: a text in backticks or an identifier. -/
def parseTagArgument : Parser String := alt parseMultilineString parseIdentifier

/-- What stands between two arguments of a tag. -/
def argSeparator : Parser Unit := do
  char ','
  let _ ← multispace0
  pure ()

/-- `parse_tag_args`. -/
def parseTagArgs : Parser (List String) :=
  delimited (char '(') (separatedList1 argSeparator (preceded multispace0 parseTagArgument)) (char ')')

/-- `parse_tag`. -/
def parseTag : Parser Tag := do
  char '@'
  let negated ← opt (char '!')
  let name ← parseIdentifier
  let args ← opt parseTagArgs
  pure { name := name, negated := negated.isSome, args := args.getD [] }

/-- `parse_tag_primary`: an expression in parentheses, or a tag. -/
def parseTagPrimary (tagExpr : Parser TagExpr) : Parser TagExpr :=
  alt
    (delimited (do char '('; multispace0) tagExpr (do let _ ← multispace0; char ')'))
    (do let t ← parseTag; pure (TagExpr.tag t))

/-- A boolean operator between two expressions. -/
def operator (word : String) : Parser String := delimited multispace0 (tag word) multispace0

/-- `parse_and_expr`. -/
def parseAndExpr (tagExpr : Parser TagExpr) : Parser TagExpr := do
  let first ← parseTagPrimary tagExpr
  let rest ← many0 (preceded (operator "and") (parseTagPrimary tagExpr))
  pure (rest.foldl .and first)

/-- `parse_or_expr`. -/
def parseOrExpr (tagExpr : Parser TagExpr) : Parser TagExpr := do
  let first ← parseAndExpr tagExpr
  let rest ← many0 (preceded (operator "or") (parseAndExpr tagExpr))
  pure (rest.foldl .or first)

/-- `parse_tag_expr`, with one unit of fuel for each level of parentheses. -/
def parseTagExprIn : Nat → Parser TagExpr
  | 0 => fail
  | n + 1 => parseOrExpr (parseTagExprIn n)

/-- `parse_tag_expr`; every level of parentheses takes a character. -/
def parseTagExpr : Parser TagExpr := fun l => parseTagExprIn (l.length + 1) l

end Parser

/-! ## The printed form -/

/-- Which characters are letters or digits, as `char::is_alphanumeric` has it: on ASCII, the ASCII letters and digits. -/
structure AlphanumericTable where
  isAlphanumeric : Char → Bool
  ascii : ∀ c : Char, c.toNat < 128 → isAlphanumeric c = Text.isAsciiAlphanumeric c

section Display

variable (u : AlphanumericTable)

/-- An argument has a character for which the printer puts it in backticks. -/
def hasSpecial (arg : List Char) : Bool := arg.any fun c => !u.isAlphanumeric c && c != '_' && c != '-'

/-- An argument as it is printed. -/
def displayArg (arg : String) : List Char :=
  if hasSpecial u arg.toList then '\x60' :: (arg.toList ++ ['\x60']) else arg.toList

/-- `Display` of a tag. -/
def displayTag (t : Tag) : List Char :=
  '@' :: ((if t.negated then ['!'] else []) ++ (t.name.toList ++
    if t.args.isEmpty then [] else '(' :: ([','].intercalate (t.args.map (displayArg u)) ++ [')'])))

/-- An expression is a disjunction. -/
def TagExpr.isOr : TagExpr → Bool
  | .or _ _ => true
  | _ => false

/-- An operand of a conjunction: a disjunction is put in parentheses. -/
def displayOperand (operand : TagExpr) (text : List Char) : List Char :=
  if operand.isOr then '(' :: (text ++ [')']) else text

/-- `Display` of a tag expression. -/
def displayTagExpr : TagExpr → List Char
  | .tag t => displayTag u t
  | .and left right => displayOperand left (displayTagExpr left) ++ (" and ".toList ++ displayOperand right (displayTagExpr right))
  | .or left right => displayTagExpr left ++ (" or ".toList ++ displayTagExpr right)

end Display

end WebPipe
