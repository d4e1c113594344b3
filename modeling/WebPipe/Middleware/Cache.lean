import WebPipe.Executor.Trace

/-!
# The cache middleware

`middleware/cache.rs`: the settings of a `cache` step, its key, and what it makes of a lookup.
-/

namespace WebPipe
namespace CacheMiddleware

/-- `lookup_path_string`: the text of the value at a dotted path. -/
def lookupPathString (input : Value) (path : String) : String :=
  let cur := ((Text.split '.' path).filter (fun seg => !seg.isEmpty)).foldl
    (fun (cur : Value) seg => (cur.get seg).getD .null) input
  match cur with
  | .null => ""
  | .string s => s
  | other => other.toJson

/-- The characters before the next closing brace, and those after it. -/
def splitBrace : List Char → Option (List Char × List Char)
  | [] => none
  | c :: rest => if c = '\x7d' then some ([], rest) else (splitBrace rest).map (fun p => (c :: p.1, p.2))

/-- Render a template, with one unit of fuel for each character. -/
def renderChars (input : Value) : Nat → List Char → String
  | 0, _ => ""
  | _ + 1, [] => ""
  | n + 1, c :: rest =>
    if c = '\x7b' then
      match splitBrace rest with
      | some (key, rest') =>
        lookupPathString input (Text.trim (String.ofList key)) ++ renderChars input n rest'
      | none => String.singleton c ++ renderChars input n rest
    else String.singleton c ++ renderChars input n rest

/-- `render_key_template`: placeholders in braces are replaced by the values at their paths. -/
def renderKeyTemplate (template : String) (input : Value) : String :=
  renderChars input template.toList.length template.toList

/-- The settings of a `cache` step. -/
structure LocalCfg where
  enabled : Option Bool := none
  ttl : Option Nat := none
  keyTpl : Option String := none
deriving DecidableEq, Repr

/-- `parse_bool`. -/
def parseBool (s : String) : Option Bool :=
  let t := Text.toAsciiLowercase (Text.trim s)
  if t = "true" then some true else if t = "false" then some false else none

/-- One setting; an unknown key changes nothing. -/
def parsePart (lc : LocalCfg) (part : String) : LocalCfg :=
  let p := Text.trim part
  if p.isEmpty then lc
  else
    match Text.splitOnce ":" p with
    | none => lc
    | some (k, v) =>
      let key := Text.trim k
      let val := Text.trim v
      if key = "enabled" then { lc with enabled := parseBool val }
      else if key = "ttl" then { lc with ttl := Text.parseUnsigned 64 val }
      else if key = "keyTemplate" then { lc with keyTpl := some val }
      else lc

/-- `parse_cfg`: settings separated by commas or line breaks. -/
def parseCfg (cfg : String) : LocalCfg :=
  (Text.split ',' (Text.replaceChar '\n' ',' cfg)).foldl parsePart {}

example : parseCfg "ttl: 60, keyTemplate: page-{params.id}\nenabled: TRUE" =
    { enabled := some true, ttl := some 60, keyTpl := some "page-\x7bparams.id\x7d" } := by decide

/-- The texts a default key is the hash of: the step, its config, and the parts of the input that identify a request. -/
def keyParts (stepId : Option String) (config : String) (input : Value) : List String :=
  stepId.toList ++ [config] ++ ((input.get "method").bind Value.asStr).toList ++
    ((input.get "path").bind Value.asStr).toList ++ ((input.get "query").map Value.toJson).toList ++
    ((input.get "params").map Value.toJson).toList

variable {σ : Type}

/-- The key of a `cache` step: its rendered template, or a hash. -/
def keyOf (env : ExecutionEnv σ) (keyTpl stepId : Option String) (config : String) (input : Value) : String :=
  match keyTpl with
  | some tpl => renderKeyTemplate tpl input
  | none => "pipeline:" ++ String.ofList (Nat.toDigits 16 (env.defaultHasher (keyParts stepId config input)))

/-- The effective `enabled`: the step's, the configuration's, or true. -/
def effectiveEnabled (env : ExecutionEnv σ) (cfg : LocalCfg) : Bool :=
  cfg.enabled.getD (((env.cacheConfig.get "enabled").bind Value.asBool).getD true)

/-- The effective TTL: the step's, the configuration's, or 60. -/
def effectiveTtl (env : ExecutionEnv σ) (cfg : LocalCfg) : Nat :=
  cfg.ttl.getD (((env.cacheConfig.get "defaultTtl").bind Value.asU64).getD 60)

/-- What a lookup leaves in the context: a hit to stop at, or a save to perform with the final state of the run. -/
def afterLookup (ctx : PipelineContext) (key : String) (ttl : Nat) : CacheLookup → PipelineContext
  | .fresh resp => { ctx with cacheHit := some resp }
  | .stale resp => { ctx with cacheHit := some resp }
  | .refresh _ =>
    { ctx with pendingCacheSaves := ctx.pendingCacheSaves ++ [{ key := key, ttl := ttl, refreshing := true }] }
  | .miss =>
    { ctx with pendingCacheSaves := ctx.pendingCacheSaves ++ [{ key := key, ttl := ttl, refreshing := false }] }

/-- `execute`. -/
def execute (env : ExecutionEnv σ) (config : String) (ctx : PipelineContext) : Exec σ PipelineContext :=
  let parsed := parseCfg config
  if effectiveEnabled env parsed then do
    let ttl := effectiveTtl env parsed
    Exec.modifyReq (fun c => { c with cachePolicy := some { enabled := true, ttl := ttl, keyTemplate := parsed.keyTpl } })
    let key := keyOf env parsed.keyTpl ctx.currentStepId config ctx.state
    let lookup ← Exec.lookupKey key
    pure (afterLookup ctx key ttl lookup)
  else pure ctx

end CacheMiddleware
end WebPipe
