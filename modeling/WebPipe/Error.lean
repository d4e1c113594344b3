import WebPipe.Ast

/-!
# Errors

`WebPipeError` of `error.rs`. Every variant but `Located` carries one text and differs from the others in the prefix of its
message, so the variants are the values of `ErrorKind`.
-/

namespace WebPipe

/-- The variants of `WebPipeError` that carry a text. -/
inductive ErrorKind where
  | parseError | routeNotFound | pipelineNotFound | middlewareNotFound | middlewareExecutionError | configError
  | databaseError | authError | validationError | templateError | networkError | cacheError | scriptError | ioError
  | jsonError | internalError | badRequest | unauthorized | forbidden | notFound | methodNotAllowed | timeout
  | rateLimitExceeded | importNotFound | circularImport | duplicateAlias | undefinedScopedReference | debuggerError
deriving DecidableEq, Repr

/-- What the message of an error of this kind starts with. -/
def ErrorKind.label : ErrorKind → String
  | parseError => "Parse error"
  | routeNotFound => "Route not found"
  | pipelineNotFound => "Pipeline not found"
  | middlewareNotFound => "Middleware not found"
  | middlewareExecutionError => "Middleware execution failed"
  | configError => "Configuration error"
  | databaseError => "Database error"
  | authError => "Authentication error"
  | validationError => "Validation error"
  | templateError => "Template error"
  | networkError => "Network error"
  | cacheError => "Cache error"
  | scriptError => "Script execution error"
  | ioError => "IO error"
  | jsonError => "JSON error"
  | internalError => "Internal server error"
  | badRequest => "Bad request"
  | unauthorized => "Unauthorized"
  | forbidden => "Forbidden"
  | notFound => "Not found"
  | methodNotAllowed => "Method not allowed"
  | timeout => "Timeout error"
  | rateLimitExceeded => "Rate limit exceeded"
  | importNotFound => "Import not found"
  | circularImport => "Circular import detected"
  | duplicateAlias => "Duplicate import alias"
  | undefinedScopedReference => "Undefined scoped reference"
  | debuggerError => "Debugger error"

/-- `WebPipeError`. -/
inductive WebPipeError where
  | plain (kind : ErrorKind) (message : String)
  | located (location : String) (source : WebPipeError)
deriving DecidableEq, Repr

namespace WebPipeError

/-- The text of an error. -/
def display : WebPipeError → String
  | plain kind message => s!"{kind.label}: {message}"
  | located location source => s!"At {location}: {display source}"

/-- `with_source_location`: attach the label of a location, unless the error has one. -/
def withSourceLocation (e : WebPipeError) (loc : SourceLocation) : WebPipeError :=
  match loc.errorLabel with
  | none => e
  | some label =>
    match e with
    | located _ _ => e
    | other => located label other

/-- `extract_middleware_failure`: the message of a middleware failure, and its location when it has one. -/
def extractMiddlewareFailure : WebPipeError → Option (String × Option String)
  | plain .middlewareExecutionError message => some (message, none)
  | located location (plain .middlewareExecutionError message) => some (message, some location)
  | _ => none

/-- A middleware failure, bare or located. -/
def IsMiddlewareFailure (e : WebPipeError) : Prop := e.extractMiddlewareFailure.isSome

instance (e : WebPipeError) : Decidable e.IsMiddlewareFailure := inferInstanceAs (Decidable (_ = true))

/-- Attaching a location makes no error a middleware failure, and keeps every one that is. -/
theorem isMiddlewareFailure_withSourceLocation (e : WebPipeError) (loc : SourceLocation) :
    (e.withSourceLocation loc).IsMiddlewareFailure ↔ e.IsMiddlewareFailure := by
  unfold withSourceLocation
  split
  · exact Iff.rfl
  · split
    · exact Iff.rfl
    · rename_i other hne
      cases e with
      | plain kind message => cases kind <;> exact Iff.rfl
      | located l s => exact absurd rfl (hne l s)

end WebPipeError

/-- Why a computation did not return: an error, or a panic of the thread. -/
inductive Failure where
  | err (e : WebPipeError)
  | panic
deriving DecidableEq, Repr

/-- A middleware failure, bare or located. -/
def Failure.IsMiddlewareFailure : Failure → Prop
  | err e => e.IsMiddlewareFailure
  | panic => False

instance : (f : Failure) → Decidable f.IsMiddlewareFailure
  | .err e => inferInstanceAs (Decidable e.IsMiddlewareFailure)
  | .panic => inferInstanceAs (Decidable False)

end WebPipe
