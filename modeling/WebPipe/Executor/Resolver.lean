import WebPipe.Executor.Tags

/-!
# Resolution

`executor/resolver.rs`, and `resolve_named_pipeline` of `executor/step.rs`: error envelopes, references to variables and named
pipelines across modules, target names, and the branch of a `result` step.
-/

namespace WebPipe

/-! ## Error envelopes -/

/-- `extract_error_type`: the type of the first error of an envelope. -/
def extractErrorType (input : Value) : Option String :=
  (input.get "errors").bind fun errors =>
    errors.asArray.bind fun items =>
      items.head?.bind fun first => (first.get "type").bind Value.asStr

/-- `override_error_type`: replace the type of the first error, where it is an object. -/
def overrideErrorType (input : Value) (errorType : Option String) : Value :=
  match errorType with
  | none => input
  | some errorType =>
    match input with
    | .object members =>
      .object (IndexMap.modify members "errors" fun
        | .array (.object first :: rest) =>
          .array (.object (IndexMap.insert first "type" (.string errorType)) :: rest)
        | other => other)
    | _ => input

/-- `make_middleware_error_value`. -/
def makeMiddlewareErrorValue (middlewareName message : String) (location : Option String) : Value :=
  let err : Object :=
    [("type", .string (middlewareName ++ "Error")), ("message", .string message), ("step", .string middlewareName)] ++
      (match location with
        | some loc => [("location", .string loc)]
        | none => [])
  .object [("errors", .array [.object err])]

/-- `select_branch`: the branch of the error type, or the ok branch when there is no error; the default branch otherwise. -/
def selectBranch (branches : List ResultBranch) (errorType : Option String) : Option ResultBranch :=
  (match errorType with
    | some err => branches.find? (fun (b : ResultBranch) => decide (b.branchType = ResultBranchType.custom err))
    | none => branches.find? (fun (b : ResultBranch) => decide (b.branchType = ResultBranchType.ok))).or
  (branches.find? (fun (b : ResultBranch) => decide (b.branchType = ResultBranchType.default)))

/-! ## References -/

/-- A part of a scoped reference: a letter, digit or underscore, then those and dashes. -/
def isValidIdentifierPart (s : String) : Bool :=
  match s.toList with
  | [] => false
  | first :: rest =>
    (Text.isAsciiAlphanumeric first || first = '_') &&
      rest.all (fun c => Text.isAsciiAlphanumeric c || c = '_' || c = '-')

/-- `parse_scoped_ref`: the alias and the name of `alias::name`; any other text is a name as it stands. -/
def parseScopedRef (config : String) : Option String × String :=
  match Text.splitOnce "::" (Text.trim config) with
  | some (ns, name) =>
    if !Text.contains "::" name && isValidIdentifierPart ns && isValidIdentifierPart name then (some ns, name)
    else (none, config)
  | none => (none, config)

section Env

variable {σ : Type}

/-- The module an alias stands for at a location. -/
def importedModule (env : ExecutionEnv σ) (loc : SourceLocation) (ns : String) : Option ModuleId :=
  loc.moduleId.bind fun id => (env.moduleRegistry id).bind fun m => m.importMap ns

/-- The variable a step's config refers to. -/
def referencedVariable (env : ExecutionEnv σ) (loc : SourceLocation) (middlewareName config : String) : Option Variable :=
  match parseScopedRef config with
  | (some ns, varName) =>
    (importedModule env loc ns).bind fun target => env.variableMap (some target) middlewareName varName
  | (none, varName) =>
    (env.variableMap loc.moduleId middlewareName varName).or
      (if loc.moduleId.isSome then env.variableMap none middlewareName varName else none)

/-- `resolve_config_and_autoname`: the config with its variable resolved, the input with the variable's name as the result
name, and whether it was added. -/
def resolveConfigAndAutoname (env : ExecutionEnv σ) (loc : SourceLocation) (middlewareName config : String) (input : Value) :
    String × Value × Bool :=
  match referencedVariable env loc middlewareName config with
  | none => (config, input, false)
  | some var =>
    match input with
    | .object members =>
      if (IndexMap.get members "resultName").isSome then (var.value, input, false)
      else (var.value, .object (IndexMap.insert members "resultName" (.string var.name)), true)
    | _ => (var.value, input, false)

/-- `resolve_named_pipeline`. -/
def resolveNamedPipeline (env : ExecutionEnv σ) (loc : SourceLocation) (pipelineName : String) : Option Pipeline :=
  match parseScopedRef pipelineName with
  | (some ns, name) => env.namedPipelines (importedModule env loc ns) name
  | (none, name) =>
    (env.namedPipelines loc.moduleId name).or (if loc.moduleId.isSome then env.namedPipelines none name else none)

end Env

/-- `determine_target_name`: the name of a `@result` tag, or the result name in the state. -/
def determineTargetName (condition : Option TagExpr) (state : Value) (autoNamed : Bool) : Option String × Bool :=
  match condition.bind getResultFromTagExpr with
  | some name => (some name, false)
  | none =>
    match (state.get "resultName").bind Value.asStr with
    | some name => (some name, autoNamed)
    | none => (none, false)

/-! ## Every failure envelope is typed -/

theorem IndexMap_get_modify {m : Object} {k : String} {f : Value → Value} :
    IndexMap.get (IndexMap.modify m k f) k = (IndexMap.get m k).map f := by
  induction m with
  | nil => rfl
  | cons p rest ih =>
    obtain ⟨k', v⟩ := p
    by_cases h : k' = k
    · simp [IndexMap.modify, IndexMap.get, h]
    · simpa [IndexMap.modify, IndexMap.get, h] using ih

/-- The envelope of a middleware failure has the type of its middleware. -/
theorem extractErrorType_makeMiddlewareErrorValue (name message : String) (location : Option String) :
    extractErrorType (makeMiddlewareErrorValue name message location) = some (name ++ "Error") := by
  cases location <;> rfl

/-- An override gives a typed envelope its type. -/
theorem extractErrorType_overrideErrorType {v : Value} {e : String} (h : extractErrorType v = some e) (t : Option String) :
    extractErrorType (overrideErrorType v t) = some (t.getD e) := by
  cases t with
  | none => exact h
  | some t =>
    unfold extractErrorType at h
    obtain ⟨errors, herrors, h⟩ := Option.bind_eq_some_iff.mp h
    obtain ⟨items, hitems, h⟩ := Option.bind_eq_some_iff.mp h
    obtain ⟨first, hfirst, h⟩ := Option.bind_eq_some_iff.mp h
    cases v with
    | object members =>
      cases errors with
      | array l =>
        cases hitems
        cases items with
        | nil => cases hfirst
        | cons a rest =>
          cases hfirst
          cases first with
          | object fields =>
            have hget : IndexMap.get members "errors" = some (.array (.object fields :: rest)) := herrors
            simp [extractErrorType, overrideErrorType, Value.get, Value.asObject, IndexMap_get_modify, hget, Value.asArray,
              Value.asStr]
          | _ => cases h
      | _ => cases hitems
    | _ => cases herrors

end WebPipe
