import WebPipe.Ast
import WebPipe.Lib.Guarded
import WebPipe.Parser.InlineArgs
import WebPipe.Parser.JoinTargets
import WebPipe.Parser.Tags

/-!
# Steps

The parser of pipelines in `ast/parser.rs`. A step that holds pipelines calls the parser of pipelines, which is the argument of each of
the step parsers here; `parsePipeline` closes the recursion. The whole text is a parameter: a place in it is what is left from there.
-/

namespace WebPipe
namespace Parser

open Nom

/-- How the config of a step is written. -/
inductive ConfigType where
  | backtick
  | quoted
  | identifier
deriving DecidableEq, Repr

/-- `parse_scoped_identifier_string`. -/
def parseScopedIdentifierString : Parser String := do
  let firstPart ← parseIdentifier
  let secondPart ← opt (do let _ ← tag "::"; parseIdentifier)
  match secondPart with
  | some second => pure (firstPart ++ "::" ++ second)
  | none => pure firstPart

/-- `parse_step_config`. -/
def parseStepConfig : Parser (String × ConfigType) :=
  alt (do let s ← between '\x60'; pure (s, .backtick))
    (alt (do let s ← between '"'; pure (s, .quoted)) (do let s ← parseScopedIdentifierString; pure (s, .identifier)))

/-- Blanks within a line. -/
def isInlineBlank (c : Char) : Bool := c = ' ' || c = '\t'

/-- The loop of `parse_step_condition` over the tags that follow without an operator, with one unit of fuel for each. -/
def moreTags : Nat → TagExpr → Parser TagExpr
  | 0, _ => fail
  | n + 1, expr => fun input =>
    let remaining := input.dropWhile isInlineBlank
    -- the blanks are left where no tag follows
    if remaining.head? ≠ some '@' then .ok (expr, input)
    else (do let nextTag ← parseTag; moreTags n (.and expr (.tag nextTag)) : Parser TagExpr) remaining

/-- `parse_step_condition`. -/
def parseStepCondition : Parser (Option TagExpr) := do
  let _ ← Nom.takeWhile isInlineBlank
  let fragment ← rest
  if fragment.head? ≠ some '@' ∧ fragment.head? ≠ some '(' then pure none
  else do
    let expr ← parseTagExpr
    let input ← rest
    let expr ← moreTags (input.length + 1) expr
    pure (some expr)

section Location

variable (source : List Char)

/-- The text before a place. -/
def textBefore (span : List Char) : List Char := source.take (source.length - span.length)

/-- `location_line`. -/
def locationLine (span : List Char) : Nat := (textBefore source span).count '\n' + 1

/-- `get_column`: the bytes since the start of the line, from 1. -/
def getColumn (span : List Char) : Nat := utf8Len ((textBefore source span).reverse.takeWhile (· != '\n')) + 1

/-- `location_from_span`. -/
def locationFromSpan (span : List Char) : SourceLocation :=
  { line := locationLine source span, column := getColumn source span, endLine := locationLine source span }

/-- `location_from_spans`. -/
def locationFromSpans (start «end» : List Char) : SourceLocation :=
  { line := locationLine source start, column := getColumn source start, endLine := locationLine source «end» }

end Location

section Steps

variable (source : List Char) (fromStr : String → Option (List String))

/-- What every step starts with: blanks and comments, `|>`, and blanks. -/
def stepHead (body : List Char → Parser PipelineStep) : Parser PipelineStep := do
  skipWsAndComments
  let startSpan ← rest
  let _ ← tag "|>"
  let _ ← multispace0
  body startSpan

/-- The config segment of a step: a colon and a config. -/
def configSegment : Parser (String × ConfigType) := do
  char ':'
  let _ ← multispace0
  parseStepConfig

/-- `parse_regular_step`. -/
def parseRegularStep : Parser PipelineStep := stepHead fun startSpan => do
  let name ← parseIdentifier
  let args ← parseInlineArgs
  let _ ← multispace0
  let configPair ← opt configSegment
  let config := (configPair.map Prod.fst).getD ""
  let condition ← parseStepCondition
  let endSpan ← rest
  let _ ← multispace0
  pure (.regular
    { name := name
      args := args
      config := config
      configPresent := configPair.isSome
      condition := condition
      parsedJoinTargets := parsedJoinTargets fromStr name config
      location := locationFromSpans source startSpan endSpan })

/-- What the name of a branch of a `result` step stands for. -/
def branchTypeOf (branchType : String) : ResultBranchType :=
  if branchType = "ok" then .ok else if branchType = "default" then .default else .custom branchType

section Nested

variable (pipeline : Parser Pipeline)

/-- `parse_result_branch`; a status that is no `u16` fails for good. -/
def parseResultBranch : Parser ResultBranch := do
  skipWsAndComments
  let branchType ← parseIdentifier
  char '('
  let statusCode ← takeWhile1 Text.isDigit
  match Text.parseUnsigned 16 (String.ofList statusCode) with
  | none => abort
  | some statusCode => do
    char ')'
    char ':'
    let _ ← multispace0
    let pipeline ← pipeline
    pure { branchType := branchTypeOf branchType, statusCode := statusCode, pipeline := pipeline }

/-- `parse_result_step`. -/
def parseResultStep : Parser PipelineStep := stepHead fun startSpan => do
  let _ ← tag "result"
  skipWsAndComments
  let branches ← many0 (parseResultBranch pipeline)
  pure (.result branches (locationFromSpan source startSpan))

/-- A pipeline after a word. -/
def block (word : String) : Parser Pipeline :=
  preceded (do let _ ← tag word; skipWsAndComments) pipeline

/-- `parse_if_step`. -/
def parseIfStep : Parser PipelineStep := stepHead fun startSpan => do
  let _ ← tag "if"
  skipWsAndComments
  let condition ← pipeline
  skipWsAndComments
  let _ ← tag "then:"
  skipWsAndComments
  let thenBranch ← pipeline
  skipWsAndComments
  let elseBranch ← opt (block pipeline "else:")
  skipWsAndComments
  let _ ← opt (tag "end")
  pure (.ifStep condition thenBranch elseBranch (locationFromSpan source startSpan))

/-- `parse_dispatch_branch`. -/
def parseDispatchBranch : Parser DispatchBranch := do
  skipWsAndComments
  let _ ← tag "case"
  let _ ← multispace0
  let condition ← parseTagExpr
  let _ ← multispace0
  char ':'
  skipWsAndComments
  let pipeline ← pipeline
  pure { condition := condition, pipeline := pipeline }

/-- `parse_dispatch_step`. -/
def parseDispatchStep : Parser PipelineStep := stepHead fun startSpan => do
  let _ ← tag "dispatch"
  skipWsAndComments
  let branches ← many0 (parseDispatchBranch pipeline)
  let default ← opt (do skipWsAndComments; block pipeline "default:")
  skipWsAndComments
  let _ ← opt (tag "end")
  pure (.dispatch branches default (locationFromSpan source startSpan))

/-- `parse_foreach_step`. -/
def parseForeachStep : Parser PipelineStep := stepHead fun startSpan => do
  let _ ← tag "foreach"
  let _ ← multispace1
  let rawSelector ← takeWhile1 fun c => c != '\n' && c != '#'
  skipWsAndComments
  let pipeline ← pipeline
  skipWsAndComments
  let _ ← tag "end"
  pure (.foreach (String.ofList (Text.trimChars rawSelector)) pipeline (locationFromSpan source startSpan))

/-- `parse_pipeline_step`. -/
def parsePipelineStep : Parser PipelineStep :=
  alt (parseResultStep source pipeline)
    (alt (parseIfStep source pipeline)
      (alt (parseDispatchStep source pipeline) (alt (parseForeachStep source pipeline) (parseRegularStep source fromStr))))

/-- One turn of the loop of `parse_pipeline`, and the rest of the loop as a pipeline. -/
def pipelineTurn : Parser Pipeline := fun remaining =>
  match skipWsAndComments remaining with
  | .error e => .error e
  | .ok (_, newInput) =>
    match parsePipelineStep source fromStr pipeline newInput with
    | .ok (step, afterStep) => (do let more ← pipeline; pure { steps := step :: more.steps } : Parser Pipeline) afterStep
    -- the blanks are left where no step follows
    | .error _ => .ok ({ steps := [] }, remaining)

end Nested

/-- `parse_pipeline`. -/
def parsePipeline : Parser Pipeline := fix (pipelineTurn source fromStr)

end Steps

end Parser
end WebPipe
