import WebPipe.Executor.Step

/-!
# Join targets at parse time

`ast/parser.rs` reads the names of a `join` step once, when it parses the step, from the text of its config; the executor then does not
read the config again. This is a second copy of the executor's reader, which answers nothing where that one fails.
-/

namespace WebPipe

namespace Parser

/-- `parse_join_task_names` of the parser; `fromStr` reads a JSON array of strings. -/
def parseJoinTaskNames (fromStr : String → Option (List String)) (config : String) : Option (List String) :=
  let trimmed := Text.trim config
  if trimmed.startsWith "[" then fromStr trimmed
  else
    let names := ((Text.split ',' trimmed).map Text.trim).filter (fun s => !s.isEmpty)
    if names.isEmpty then none else some names

/-- What `parse_regular_step` keeps of a step's config as its targets. -/
def parsedJoinTargets (fromStr : String → Option (List String)) (name config : String) : Option (List String) :=
  if name = "join" then parseJoinTaskNames fromStr config else none

end Parser

variable {σ : Type}

/-- The two readers agree on a text. -/
theorem parseJoinTaskNames_toOption (env : ExecutionEnv σ) (config : String) :
    Parser.parseJoinTaskNames env.parseStringArray config = (parseJoinTaskNames env config).toOption := by
  unfold Parser.parseJoinTaskNames parseJoinTaskNames
  dsimp only
  split
  · cases env.parseStringArray (Text.trim config) with
    | none => rfl
    | some names => rfl
  · split
    · rfl
    · rfl

end WebPipe
