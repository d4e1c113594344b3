import WebPipe.Parser.Config
import WebPipe.Parser.Tests
import WebPipe.Program

/-!
# Files

The top level of `ast/parser.rs`: declarations, and the loop of `parse_program` over them. Text that no declaration starts with is skipped
line by line.
-/

namespace WebPipe

/-- A parsed file with the parts that loading does not read. -/
structure SourceProgram extends Program where
  configs : List Config := []
  describes : List Describe := []

namespace Parser

open Nom

section Declarations

variable (source : List Char) (fromStr : String → Option (List String))

/-- What follows the name of a declaration: `=` and a pipeline. -/
def pipelineValue : Parser Pipeline := do
  let _ ← multispace0
  char '='
  let _ ← multispace0
  let pipeline ← parsePipeline source fromStr
  let _ ← multispace0
  pure pipeline

/-- A keyword, a name and a pipeline. -/
def namedPipeline (keyword : String) : Parser (String × Pipeline) := do
  word keyword
  let name ← parseIdentifier
  let pipeline ← pipelineValue source fromStr
  pure (name, pipeline)

/-- `parse_named_pipeline`. -/
def parseNamedPipeline : Parser NamedPipeline := do
  let (name, pipeline) ← namedPipeline source fromStr "pipeline"
  pure { name := name, pipeline := pipeline }

/-- `parse_query_resolver`. -/
def parseQueryResolver : Parser QueryResolver := do
  let (name, pipeline) ← namedPipeline source fromStr "query"
  pure { name := name, pipeline := pipeline }

/-- `parse_mutation_resolver`. -/
def parseMutationResolver : Parser MutationResolver := do
  let (name, pipeline) ← namedPipeline source fromStr "mutation"
  pure { name := name, pipeline := pipeline }

/-- `parse_type_resolver`. -/
def parseTypeResolver : Parser TypeResolver := do
  word "resolver"
  let typeName ← parseIdentifier
  char '.'
  let fieldName ← parseIdentifier
  let pipeline ← pipelineValue source fromStr
  pure { typeName := typeName, fieldName := fieldName, pipeline := pipeline }

/-- `parse_feature_flags`. -/
def parseFeatureFlags : Parser Pipeline := do
  let _ ← tag "featureFlags"
  pipelineValue source fromStr

/-- `parse_graphql_schema`. -/
def parseGraphqlSchema : Parser String := do
  let _ ← tag "graphqlSchema"
  let _ ← multispace0
  char '='
  let _ ← multispace0
  let sdl ← parseMultilineString
  let _ ← multispace0
  pure sdl

/-- A call of a named pipeline as the pipeline of a route. -/
def pipelineCall : Parser String := do
  let _ ← multispace0
  word "|>"
  word "pipeline:"
  parseIdentifier

/-- `parse_pipeline_ref`. -/
def parsePipelineRef : Parser PipelineRef :=
  alt (do let p ← parsePipeline source fromStr; pure (.inline p)) (do let name ← pipelineCall; pure (.named name))

/-- `parse_import`. -/
def parseImport : Parser Import := do
  word "import"
  let path ← between '"'
  let _ ← multispace0
  word "as"
  let «alias» ← parseIdentifier
  let _ ← multispace0
  pure { path := path, «alias» := «alias» }

/-- `parse_variable`. -/
def parseVariable : Parser VariableDecl := do
  let varType ← parseIdentifier
  let _ ← multispace0
  let name ← parseIdentifier
  let _ ← multispace0
  char '='
  let _ ← multispace0
  let value ← parseMultilineString
  let _ ← multispace0
  pure { varType := varType, name := name, value := value }

/-- `parse_route`. -/
def parseRoute : Parser Route := do
  let method ← parseMethod
  let _ ← multispace0
  let path ← takeTill1 fun c => c = ' ' || c = '\n'
  let _ ← multispace0
  let pipeline ← parsePipelineRef source fromStr
  let _ ← multispace0
  pure { method := method, path := path, pipeline := pipeline }

/-! ## The loop -/

/-- Take an import in; a second one under an alias is an error for the whole file. -/
def addImport (p : SourceProgram) (i : Import) : Parser SourceProgram :=
  if p.imports.any (fun j => j.«alias» = i.«alias») then abort else pure { p with imports := p.imports ++ [i] }

/-- The first of the top-level elements that can be parsed, or else the rest of a line. -/
def element (p : SourceProgram) : Parser SourceProgram :=
  ifOk parseConfig (fun c => pure { p with configs := p.configs ++ [c] }) <|
  ifOk parseImport (addImport p) <|
  ifOk (parseFeatureFlags source fromStr) (fun flags => pure { p with featureFlags := some flags }) <|
  ifOk parseGraphqlSchema (fun schema => pure { p with graphqlSchema := some schema }) <|
  ifOk (parseQueryResolver source fromStr) (fun q => pure { p with queries := p.queries ++ [q] }) <|
  ifOk (parseMutationResolver source fromStr) (fun m => pure { p with mutations := p.mutations ++ [m] }) <|
  ifOk (parseTypeResolver source fromStr) (fun r => pure { p with resolvers := p.resolvers ++ [r] }) <|
  ifOk (parseNamedPipeline source fromStr) (fun d => pure { p with pipelines := p.pipelines ++ [d] }) <|
  ifOk parseVariable (fun v => pure { p with «variables» := p.variables ++ [v] }) <|
  ifOk (parseRoute source fromStr) (fun r => pure { p with routes := p.routes ++ [r] }) <|
  ifOk (parseDescribe source) (fun d => pure { p with describes := p.describes ++ [d] }) <|
  -- unrecognised content is skipped
  ifOk (takeTill1 (· = '\n')) (fun _ => pure p) fail

/-- One turn of the loop of `parse_program`: the program with one more element, or none where the loop breaks. -/
def programTurn (p : SourceProgram) : Parser (Option SourceProgram) := fun remaining =>
  match skipWsAndComments remaining with
  | .error e => .error e
  | .ok (_, newRemaining) =>
    if newRemaining.isEmpty then .ok (none, remaining)
    else
      match element source fromStr p newRemaining with
      | .ok (p', newInput) => .ok (some p', newInput)
      | .error .failure => .error .failure
      | .error .error => .ok (none, remaining)

/-- The loop of `parse_program`, with one unit of fuel for each turn. -/
def programLoop : Nat → SourceProgram → Parser SourceProgram
  | 0, _ => fail
  | n + 1, p => fun remaining =>
    if remaining.isEmpty then .ok (p, remaining)
    else
      match programTurn source fromStr p remaining with
      | .error e => .error e
      | .ok (none, remaining) => .ok (p, remaining)
      | .ok (some p', remaining) => programLoop n p' remaining

end Declarations

section Program

variable (fromStr : String → Option (List String))

/-- `parse_program` with a number of turns. -/
def parseProgramWithin (turns : Nat) (input : List Char) : Except Err (SourceProgram × List Char) :=
  (do skipWsAndComments; programLoop input fromStr turns {} : Parser SourceProgram) input

/-- `parse_program`; every turn of the loop takes a character. -/
def parseProgram (input : List Char) : Except Err (SourceProgram × List Char) := parseProgramWithin fromStr (input.length + 1) input

end Program

end Parser
end WebPipe
