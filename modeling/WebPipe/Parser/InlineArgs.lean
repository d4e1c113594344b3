import WebPipe.Parser.Tokens

/-!
# Inline arguments

`parse_inline_args` and `split_balanced_args` of `ast/parser.rs`: the arguments in brackets after the name of a step. The scan for the
closing bracket counts bytes. The scans are for depths of any type; `parseInlineArgs` takes integers, the source `i32`, which is the same
on texts of fewer than 2³¹ characters.
-/

namespace WebPipe
namespace Parser

open Nom

/-- The bracket that closes another. -/
def closeChar (openChar : Char) : Char := if openChar = '(' then ')' else ']'

section Scans

variable {δ : Type} [OfNat δ 0] [OfNat δ 1] [Add δ] [Sub δ] [DecidableEq δ]

/-- The scan for the closing bracket: the byte index of the first closing bracket at depth 0 that is not in a string. -/
def findClosing (openChar : Char) (depth : δ) (inString escapeNext : Bool) (idx : Nat) : List Char → Option Nat
  | [] => none
  | ch :: l =>
    let next := idx + ch.utf8Size
    if escapeNext then findClosing openChar depth inString false next l
    else if ch = '\\' ∧ inString = true then findClosing openChar depth inString true next l
    else if ch = '"' then findClosing openChar depth (!inString) false next l
    else if ch = openChar ∧ inString = false then findClosing openChar (depth + 1) inString false next l
    else if ch = closeChar openChar ∧ inString = false then
      if depth = 0 then some idx else findClosing openChar (depth - 1) inString false next l
    else findClosing openChar depth inString false next l

/-- The state of the loop of `split_balanced_args`. -/
structure SplitState (δ : Type) [OfNat δ 0] where
  args : List String := []
  currentArg : List Char := []
  depth : δ := 0
  inString : Bool := false
  escapeNext : Bool := false

/-- One character of `split_balanced_args`. -/
def splitStep (s : SplitState δ) (ch : Char) : SplitState δ :=
  if s.escapeNext then { s with currentArg := s.currentArg ++ [ch], escapeNext := false }
  else if ch = '\\' ∧ s.inString = true then { s with currentArg := s.currentArg ++ [ch], escapeNext := true }
  else if ch = '"' then { s with currentArg := s.currentArg ++ [ch], inString := !s.inString }
  else if (ch = '(' ∨ ch = '[' ∨ ch = '\x7b') ∧ s.inString = false then
    { s with currentArg := s.currentArg ++ [ch], depth := s.depth + 1 }
  else if (ch = ')' ∨ ch = ']' ∨ ch = '\x7d') ∧ s.inString = false then
    { s with currentArg := s.currentArg ++ [ch], depth := s.depth - 1 }
  else if ch = ',' ∧ s.depth = 0 ∧ s.inString = false then
    { s with args := s.args ++ [String.ofList (Text.trimChars s.currentArg)], currentArg := [] }
  else { s with currentArg := s.currentArg ++ [ch] }

/-- Split at the commas that are in no brackets and no string, with depths of a type. -/
def splitBalancedArgsIn (δ : Type) [OfNat δ 0] [OfNat δ 1] [Add δ] [Sub δ] [DecidableEq δ] (content : List Char) : List String :=
  if (Text.trimChars content).isEmpty then []
  else
    let s : SplitState δ := content.foldl splitStep {}
    if (Text.trimChars s.currentArg).isEmpty then s.args else s.args ++ [String.ofList (Text.trimChars s.currentArg)]

end Scans

/-- The part of a text before a byte index. -/
def takeBytes : Nat → List Char → List Char
  | _, [] => []
  | n, c :: l => if c.utf8Size ≤ n then c :: takeBytes (n - c.utf8Size) l else []

/-- The arguments in brackets after the name of a step, with depths of a type. -/
def parseInlineArgsIn (δ : Type) [OfNat δ 0] [OfNat δ 1] [Add δ] [Sub δ] [DecidableEq δ] : Parser (List String) := do
  let fragment ← rest
  let first := (fragment.dropWhile Text.isWhitespace).head?
  if first ≠ some '(' ∧ first ≠ some '[' then pure []
  else
    let openChar := if first = some '(' then '(' else '['
    let _ ← char openChar
    let inputFragment ← rest
    match findClosing openChar (0 : δ) false false 0 inputFragment with
    | none => fail
    | some endPos =>
      let argsContent := takeBytes endPos inputFragment
      -- a number of characters, and the closing bracket
      let _ ← take (endPos + 1)
      pure (splitBalancedArgsIn δ argsContent)

/-- `split_balanced_args`. -/
def splitBalancedArgs (content : List Char) : List String := splitBalancedArgsIn Int content

/-- `parse_inline_args`. -/
def parseInlineArgs : Parser (List String) := parseInlineArgsIn Int

example : parseInlineArgs "(\x60/a\x60, \x7bb: [1, 2]\x7d, \"x, y)\"): z".toList =
    .ok (["\x60/a\x60", "\x7bb: [1, 2]\x7d", "\"x, y)\""], ": z".toList) := by decide +kernel

end Parser
end WebPipe
