import WebPipe.Lib.NomLoops
import WebPipe.Parser.Steps
import WebPipe.Testing.Mocks

/-!
# Tests

`describe` blocks: the part of `ast/types.rs` for tests, and its parser in `ast/parser.rs`.
-/

namespace WebPipe

/-- How the value of a `let` is written. -/
inductive LetValueFormat where
  | quoted
  | backtick
  | bare
deriving DecidableEq, Repr

/-- A `let` of a test: its name, the text of its value, and how that is written. -/
abbrev LetBinding := String × String × LetValueFormat

/-- What a test runs. -/
inductive When where
  | callingRoute (method path : String)
  | executingPipeline (name : String)
  | executingVariable (varType name : String)
deriving DecidableEq, Repr

inductive ConditionType where
  | then
  | and
deriving DecidableEq, Repr

/-- What is asserted of the elements that a selector finds. -/
inductive DomAssertType where
  | exists
  | text
  | count
  | attribute (name : String)
deriving DecidableEq, Repr

/-- An assertion of a test. -/
structure Condition where
  conditionType : ConditionType
  field : String
  headerName : Option String := none
  jqExpr : Option String := none
  comparison : String
  value : String
  isCallAssertion : Bool := false
  callTarget : Option String := none
  selector : Option String := none
  domAssert : Option DomAssertType := none
deriving DecidableEq, Repr

/-- A test. -/
structure It where
  name : String
  mocks : List Mock
  «when» : When
  «variables» : List LetBinding
  input : Option String
  body : Option String
  headers : Option String
  cookies : Option String
  stdin : Option String
  args : Option String
  options : Option String
  conditions : List Condition
  location : SourceLocation

/-- A block of tests. -/
structure Describe where
  name : String
  «variables» : List LetBinding
  mocks : List Mock
  tests : List It
  location : SourceLocation

namespace Parser

open Nom

/-- The characters up to a character, at least one. -/
def takeTill1 (stop : Char → Bool) : Parser String := do
  let s ← takeWhile1 fun c => !stop c
  pure (String.ofList s)

/-- A word, and blanks after it. -/
def word (t : String) : Parser Unit := do
  let _ ← tag t
  let _ ← multispace0
  pure ()

/-- `parse_method`. -/
def parseMethod : Parser String := alt (tag "GET") (alt (tag "POST") (alt (tag "PUT") (tag "DELETE")))

/-- `parse_when`. -/
def parseWhen : Parser When :=
  alt (do
    word "calling"
    let method ← parseMethod
    let _ ← multispace0
    let path ← takeTill1 (· = '\n')
    pure (.callingRoute method path))
  (alt (do
    word "executing"
    word "pipeline"
    let name ← parseIdentifier
    pure (.executingPipeline name))
  (do
    word "executing"
    word "variable"
    let varType ← parseIdentifier
    let _ ← multispace0
    let name ← parseIdentifier
    pure (.executingVariable varType name)))

/-! ## Conditions -/

/-- A text in backticks or in double quotes. -/
def quotedText : Parser String := alt parseMultilineString (between '"')

/-- A text in backticks or in double quotes, or the rest of the line. -/
def lineValue : Parser String := alt parseMultilineString (alt (between '"') (takeTill1 (· = '\n')))

/-- `then call query users with ...`. -/
def callCondition (conditionType : ConditionType) : Parser Condition := do
  let callType ← alt (tag "query") (alt (tag "mutation") (tag "pipeline"))
  let _ ← multispace1
  let callName ← parseIdentifier
  let _ ← multispace0
  let comparison ← alt (tag "with arguments") (tag "with")
  let _ ← multispace0
  let value ← lineValue
  pure { conditionType := conditionType, field := "call", comparison := comparison, value := value, isCallAssertion := true
         callTarget := some (callType ++ "." ++ callName) }

/-- What follows the operation of a condition on a selector. -/
def selectorOperation (conditionType : ConditionType) (selector operation : String) : Parser Condition :=
  if operation = "exists" then
    pure { conditionType := conditionType, field := "selector", comparison := "exists", value := "true"
           selector := some selector, domAssert := some .exists }
  else if operation = "does" then do
    word "not"
    let _ ← tag "exist"
    pure { conditionType := conditionType, field := "selector", comparison := "does_not_exist", value := "false"
           selector := some selector, domAssert := some .exists }
  else if operation = "text" then do
    let comparison ← takeTill1 (· = ' ')
    let _ ← multispace0
    let value ← lineValue
    pure { conditionType := conditionType, field := "selector", comparison := comparison, value := value
           selector := some selector, domAssert := some .text }
  else if operation = "count" then do
    let compText ← takeTill1 Text.isDigit
    let value ← takeTill1 (· = '\n')
    pure { conditionType := conditionType, field := "selector", comparison := Text.trim compText, value := Text.trim value
           selector := some selector, domAssert := some .count }
  else if operation = "attribute" then do
    let attrName ← quotedText
    let _ ← multispace0
    let comparison ← takeTill1 fun c => c = '"' || c = '\x60'
    let value ← lineValue
    pure { conditionType := conditionType, field := "selector", comparison := Text.trim comparison, value := value
           selector := some selector, domAssert := some (.attribute attrName) }
  else abort

/-- `then selector "h1" exists` and its like. -/
def selectorCondition (conditionType : ConditionType) : Parser Condition := do
  let selector ← quotedText
  let _ ← multispace0
  let operation ← takeTill1 fun c => c = ' ' || c = '\n'
  let _ ← multispace0
  selectorOperation conditionType selector operation

/-- The value of a condition; one in double quotes keeps them. -/
def conditionValue : Parser String :=
  alt parseMultilineString (alt (do let s ← between '"'; pure ("\"" ++ s ++ "\"")) (takeTill1 (· = '\n')))

/-- The name of the header that a condition is about. -/
def conditionHeader (field : String) : Parser (Option String) :=
  if field = "header" then do
    let name ← quotedText
    let _ ← multispace0
    pure (some name)
  else pure none

/-- The jq expression of a condition that is not about a header. -/
def conditionJq (headerName : Option String) : Parser (Option String) :=
  if headerName.isNone then opt parseMultilineString else pure none

/-- A condition on a field of the response. -/
def fieldCondition (conditionType : ConditionType) (field : String) : Parser Condition := do
  let headerName ← conditionHeader field
  let jqExpr ← conditionJq headerName
  let _ ← multispace0
  let comparison ← takeTill1 (· = ' ')
  let _ ← multispace0
  let value ← conditionValue
  pure { conditionType := conditionType, field := field, headerName := headerName, jqExpr := jqExpr, comparison := comparison, value := value }

/-- `parse_condition`. -/
def parseCondition : Parser Condition := do
  let _ ← multispace0
  let conditionTypeStr ← alt (tag "then") (tag "and")
  let conditionType := if conditionTypeStr = "then" then ConditionType.then else ConditionType.and
  let _ ← multispace0
  let field ← takeTill1 (· = ' ')
  let _ ← multispace0
  if field = "call" then callCondition conditionType
  else if field = "selector" then selectorCondition conditionType
  else fieldCondition conditionType field

/-! ## Mocks and values -/

/-- A target that is named after a keyword. -/
def namedTarget (keyword : String) : Parser String := do
  let _ ← multispace1
  let name ← parseIdentifier
  pure (keyword ++ "." ++ name)

/-- The target of a mock. -/
def mockTarget : Parser String :=
  ifOk (tag "pipeline") (fun _ => namedTarget "pipeline")
    (ifOk (tag "query") (fun _ => namedTarget "query")
      (ifOk (tag "mutation") (fun _ => namedTarget "mutation") (takeTill1 fun c => c = ' ' || c = '\n')))

/-- `parse_mock` and `parse_and_mock`, which start with different words. -/
def mockAfter (start : String) : Parser Mock := do
  let _ ← multispace0
  word start
  word "mock"
  let target ← mockTarget
  let _ ← multispace0
  word "returning"
  let returnValue ← parseMultilineString
  let _ ← multispace0
  pure { target := target, returnValue := returnValue }

/-- `parse_mock`. -/
def parseMock : Parser Mock := mockAfter "with"

/-- `parse_and_mock`. -/
def parseAndMock : Parser Mock := mockAfter "and"

/-- The value of a `let`. -/
def letValue : Parser (String × LetValueFormat) :=
  alt (do let v ← parseMultilineString; pure (v, .backtick))
  (alt (do let v ← between '"'; pure (v, .quoted))
  (alt (do let v ← tag "null"; pure (v, .bare))
  (alt (do let v ← alt (tag "true") (tag "false"); pure (v, .bare))
  (alt (do
      let s ← recognize (do
        let _ ← takeWhile1 Text.isDigit
        char '.'
        takeWhile1 Text.isDigit)
      pure (String.ofList s, .bare))
  (do let s ← takeWhile1 Text.isDigit; pure (String.ofList s, .bare))))))

/-- `parse_let_binding`. -/
def parseLetBinding : Parser LetBinding := do
  word "let"
  let name ← parseIdentifier
  let _ ← multispace0
  char '='
  let _ ← multispace0
  let (value, format) ← letValue
  pure (name, value, format)

/-! ## Clauses -/

/-- The kind and the text of a `with` clause. -/
def withValue : Parser (String × String) := do
  word "with"
  let kind ← alt (tag "input") (alt (tag "body") (alt (tag "headers") (tag "cookies")))
  let _ ← multispace0
  let value ← parseMultilineString
  let _ ← multispace0
  pure (kind, value)

/-- `parse_with_clause`. -/
def parseWithClause : Parser (String × String) := withValue

/-- `parse_and_with_clause`. -/
def parseAndWithClause : Parser (String × String) := do
  word "and"
  withValue

/-- The first `with` clause of a test, or a later one. -/
def nextWithClause (first : Bool) : Parser (String × String) := if first then parseWithClause else parseAndWithClause

/-- `parse_and_stdin_clause`. -/
def parseAndStdinClause : Parser String := do
  word "and"
  word "stdin"
  word "is"
  let value ← quotedText
  let _ ← multispace0
  pure value

/-- `and args are` and `and options are`. -/
def andAre (name : String) : Parser String := do
  word "and"
  word name
  word "are"
  let value ← parseMultilineString
  let _ ← multispace0
  pure value

/-- `parse_and_args_clause`. -/
def parseAndArgsClause : Parser String := andAre "args"

/-- `parse_and_options_clause`. -/
def parseAndOptionsClause : Parser String := andAre "options"

/-- The clauses of a test so far; only the first `with` clause has no `and` before it. -/
structure Clauses where
  input : Option String := none
  body : Option String := none
  headers : Option String := none
  cookies : Option String := none
  stdin : Option String := none
  args : Option String := none
  options : Option String := none
  firstWith : Bool := true

/-- Take a `with` clause in. -/
def Clauses.add (c : Clauses) (kind value : String) : Clauses :=
  let c := { c with firstWith := false }
  if kind = "input" then { c with input := some value }
  else if kind = "body" then { c with body := some value }
  else if kind = "headers" then { c with headers := some value }
  else if kind = "cookies" then { c with cookies := some value }
  else c

/-- One more clause. -/
def clause (c : Clauses) : Parser Clauses :=
  orElse (do
    let (kind, value) ← nextWithClause c.firstWith
    pure (c.add kind value))
  (orElse (do let value ← parseAndStdinClause; pure { c with stdin := some value, firstWith := false })
  (orElse (do let value ← parseAndArgsClause; pure { c with args := some value, firstWith := false })
  (do let value ← parseAndOptionsClause; pure { c with options := some value, firstWith := false })))

/-! ## Blocks -/

/-- A name in double quotes after a word. -/
def title (keyword : String) : Parser String := do
  word keyword
  char '"'
  let name ← takeUntil '"'
  char '"'
  pure (String.ofList name)

/-- One more `let` of a test. -/
def letItem (bs : List LetBinding) : Parser (List LetBinding) := do
  let b ← parseLetBinding
  pure (bs ++ [b])

section Location

variable (source : List Char)

/-- `parse_it`. -/
def parseIt : Parser It := do
  skipWsAndComments
  let itStart ← rest
  let name ← title "it"
  skipWsAndComments
  let mocks ← many0 parseMock
  let bindings ← whileOk (pure ()) letItem skipWsAndComments []
  let _ ← tag "when"
  skipWsAndComments
  let «when» ← parseWhen
  skipWsAndComments
  let clauses ← whileOk (pure ()) clause (pure ()) {}
  skipWsAndComments
  let extraMocks ← many0 parseAndMock
  skipWsAndComments
  let conditions ← many0 parseCondition
  pure { name := name, mocks := mocks ++ extraMocks, «when» := «when», «variables» := bindings, input := clauses.input
         body := clauses.body, headers := clauses.headers, cookies := clauses.cookies, stdin := clauses.stdin, args := clauses.args
         options := clauses.options, conditions := conditions, location := locationFromSpan source itStart }

/-- One more `let`, mock or test of a block. -/
def describeItem (d : Describe) : Parser Describe :=
  orElse (do let b ← parseLetBinding; pure { d with «variables» := d.variables ++ [b] })
  (orElse (do let m ← parseMock; pure { d with mocks := d.mocks ++ [m] })
  (orElse (do let m ← parseAndMock; pure { d with mocks := d.mocks ++ [m] })
  (do let t ← parseIt source; pure { d with tests := d.tests ++ [t] })))

/-- `parse_describe`. -/
def parseDescribe : Parser Describe := do
  skipWsAndComments
  let describeStart ← rest
  let name ← title "describe"
  skipWsAndComments
  whileOk skipWsAndComments (describeItem source) (pure ())
    { name := name, «variables» := [], mocks := [], tests := [], location := locationFromSpan source describeStart }

end Location

end Parser
end WebPipe
