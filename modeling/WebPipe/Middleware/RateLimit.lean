import WebPipe.Error
import WebPipe.Runtime.RateLimit
import WebPipe.Lib.Text

/-!
# The rate limiter

`middleware/rate_limit.rs`: the settings of a `rateLimit` step, its key, and what it makes of the counter. The arithmetic on `u64` is
unchecked: a debug build panics where a release build wraps, so the functions that compute take the build.
-/

namespace WebPipe

/-- What the rate limiter leaves in the metadata of the request. -/
structure RateLimitStatus where
  allowed : Bool
  currentCount : Nat
  limit : Nat
  retryAfterSecs : Nat
  key : String
  scope : Option String
deriving DecidableEq, Repr

namespace RateLimitMiddleware

/-- Configuration for the rateLimit middleware. -/
structure RateLimitConfig where
  keyTemplate : Option String := none
  limit : Option Nat := none
  windowSecs : Option Nat := none
  burst : Option Nat := none
  scope : Option String := none
  enabled : Option Bool := none
deriving DecidableEq, Repr

/-- A number of a unit of some seconds. -/
def inUnit (b : Build) (unitSecs : Nat) (numStr : String) : Option (Option Nat) :=
  match Text.parseUnsigned 64 (Text.trim numStr) with
  | none => some none
  | some num => (b.u64 (num * unitSecs)).map some

/-- `parse_duration`: a duration such as `60s`, `1m` or `1h`, in seconds. -/
def parseDuration (b : Build) (text : String) : Option (Option Nat) :=
  let s := Text.trim text
  if s.isEmpty then some none
  else
    match Text.parseUnsigned 64 s with
    | some n => some (some n)
    | none =>
      match Text.stripSuffix "ms" s with
      | some numStr => some ((Text.parseUnsigned 64 (Text.trim numStr)).map fun num => num / 1000)
      | none =>
        match Text.stripSuffix "s" s with
        | some numStr => some (Text.parseUnsigned 64 (Text.trim numStr))
        | none =>
          match Text.stripSuffix "m" s with
          | some numStr => inUnit b 60 numStr
          | none =>
            match Text.stripSuffix "h" s with
            | some numStr => inUnit b 3600 numStr
            | none =>
              match Text.stripSuffix "d" s with
              | some numStr => inUnit b 86400 numStr
              | none => some none

/-- `parse_bool`. -/
def parseBool (s : String) : Option Bool :=
  let t := Text.toAsciiLowercase (Text.trim s)
  if t = "true" then some true else if t = "false" then some false else none

/-- One setting; an unknown key changes nothing. -/
def parsePart (b : Build) (lc : RateLimitConfig) (part : String) : Option RateLimitConfig :=
  let p := Text.trim part
  if p.isEmpty then some lc
  else
    match Text.splitOnce ":" p with
    | none => some lc
    | some (k, v) =>
      let key := Text.trim k
      let val := Text.trim v
      if key = "keyTemplate" then some { lc with keyTemplate := some val }
      else if key = "limit" then some { lc with limit := Text.parseUnsigned 64 val }
      else if key = "window" then (parseDuration b val).map fun window => { lc with windowSecs := window }
      else if key = "burst" then some { lc with burst := Text.parseUnsigned 64 val }
      else if key = "scope" then some { lc with scope := some val }
      else if key = "enabled" then some { lc with enabled := parseBool val }
      else some lc

/-- `parse_config`: settings separated by commas or line breaks. -/
def parseConfig (b : Build) (cfg : String) : Option RateLimitConfig :=
  (Text.split ',' (Text.replaceChar '\n' ',' cfg)).foldlM (parsePart b) {}

example : parseConfig .debug "limit: 9\nwindow: 5m" = some { limit := some 9, windowSecs := some 300 } := by decide +kernel

/-- `resolve_path`: the value at a dotted path, through objects and arrays. -/
def resolvePath (value : Value) (path : String) : Option Value :=
  (Text.split '.' path).foldlM
    (fun current part =>
      match current with
      | .object _ => current.get part
      | .array arr => (Text.parseUnsigned 64 part).bind fun idx => arr[idx]?
      | _ => none)
    value

/-- The text a placeholder gives way to. -/
def replacement (input : Value) (varName : String) : String :=
  match resolvePath input varName with
  | none => "unknown"
  | some (.string s) => s
  | some v => v.toJson

/-- One turn of the loop of `interpolate_key`: the first opening brace from `start` on and the first closing brace after it are
replaced, with what is between them, and the search goes on after the replacement. -/
def interpolateStep (input : Value) (result : List Char) (start : Nat) : Option (List Char × Nat) :=
  match (result.drop start).findIdx? (· = '\x7b') with
  | none => none
  | some toOpen =>
    let openIdx := start + toOpen
    match (result.drop openIdx).findIdx? (· = '\x7d') with
    | none => none
    | some toClose =>
      let closeIdx := openIdx + toClose
      let varName := (result.drop (openIdx + 1)).take (closeIdx - (openIdx + 1))
      let replacement := (replacement input (String.ofList varName)).toList
      some (result.take openIdx ++ replacement ++ result.drop (closeIdx + 1), openIdx + replacement.length)

/-- The loop of `interpolate_key`. -/
def interpolateLoop (input : Value) : Nat → List Char → Nat → List Char
  | 0, result, _ => result
  | n + 1, result, start =>
    match interpolateStep input result start with
    | none => result
    | some (result, start) => interpolateLoop input n result start

/-- `interpolate_key`: interpolate a template with values from the state. Every turn leaves less of the text to search, so that there
are no more turns than characters. -/
def interpolateKey (template : String) (input : Value) : String :=
  String.ofList (interpolateLoop input template.toList.length template.toList 0)

example : interpolateKey "ip-\x7bip\x7d-\x7buser.id\x7d" (.object [("ip", .string "\x7bx\x7d")]) = "ip-\x7bx\x7d-unknown" := by decide +kernel

/-- What a `rateLimit` step does: how it ends, what it leaves in the metadata, and the counters. -/
structure Outcome where
  result : Except WebPipeError Unit
  status : Option RateLimitStatus := none
  store : RateLimitStore

/-- A setting that is required. -/
def required {α : Type} (name : String) (setting : Option α) : Except WebPipeError α :=
  match setting with
  | some a => .ok a
  | none => .error (.plain .configError s!"rateLimit: {name} is required")

/-- `execute`, at a clock reading; nothing is a panic. -/
def execute (b : Build) (now : Nat) (config : String) (input : Value) (store : RateLimitStore) : Option Outcome :=
  (parseConfig b config).bind fun cfg =>
    if (cfg.enabled.getD true) = false then some { result := .ok (), store := store }
    else
      match required "keyTemplate" cfg.keyTemplate with
      | .error e => some { result := .error e, store := store }
      | .ok keyTemplate =>
        match required "limit" cfg.limit with
        | .error e => some { result := .error e, store := store }
        | .ok limit =>
          match required "window" cfg.windowSecs with
          | .error e => some { result := .error e, store := store }
          | .ok window =>
            let windowSecs := max window 1
            let key := interpolateKey keyTemplate input
            let call : RateLimitCall := { key := key, limit := limit, windowSecs := windowSecs, burst := cfg.burst }
            (store.checkAndIncrementIn b now call).map fun (answer, store) =>
              { result :=
                  if answer.allowed then .ok ()
                  else
                    .error (.plain .rateLimitExceeded
                      s!"Rate limit exceeded for key '{key}': {answer.currentCount}/{answer.limit} requests in {windowSecs}s window. Retry after {answer.retryAfterSecs}s")
                status :=
                  some { allowed := answer.allowed, currentCount := answer.currentCount, limit := answer.limit,
                         retryAfterSecs := answer.retryAfterSecs, key := key, scope := cfg.scope }
                store := store }

end RateLimitMiddleware
end WebPipe
