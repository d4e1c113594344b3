import WebPipe.Lemmas.Trace

/-!
# The cache calls of a run

A run looks a key up at each cache step it executes and keeps a save for every key it missed or is to refresh; a hit ends it. At its
end it performs the saves it kept with what it returns. The calls of runs inside it are their own.
-/

namespace WebPipe

variable {σ : Type} {env : ExecutionEnv σ} {run : RunFn σ}

/-! ## Own calls -/

/-- A call on the store that a run makes itself, with its answer. -/
def Event.ownCall : Event → Option (CacheCall × CacheAnswer)
  | .cache true _ call answer => some (call, answer)
  | _ => none

/-- The calls on the store that a run makes itself, in order; those of the runs inside it are not among them. -/
def ownCalls (l : List Event) : List (CacheCall × CacheAnswer) := l.filterMap Event.ownCall

/-- The calls of a log in order. -/
theorem ownCalls_append (l₁ l₂ : List Event) : ownCalls (l₁ ++ l₂) = ownCalls l₁ ++ ownCalls l₂ :=
  List.filterMap_append ..

/-- An event that is no call adds none. -/
theorem ownCalls_cons_none {e : Event} (h : e.ownCall = none) (l : List Event) : ownCalls (e :: l) = ownCalls l :=
  List.filterMap_cons_none h

/-- The log holds no call of the run itself. -/
def NoOwnCalls (_ : World σ) (l : List Event) (_ : World σ) : Prop := ownCalls l = []

/-- Logs without calls add up to one. -/
theorem passes_noOwnCalls : Passes (NoOwnCalls : World σ → List Event → World σ → Prop) where
  quiet _ := rfl
  trans h₁ h₂ := by
    unfold NoOwnCalls at *
    rw [ownCalls_append, h₁, h₂]
    rfl

/-- The calls of a nested run are its own. -/
theorem coversRuns_noOwnCalls : CoversRuns run NoOwnCalls := fun _ _ _ _ _ _ _ _ => rfl

/-- So are those of a task. -/
theorem coversTasks_noOwnCalls : CoversTasks env run NoOwnCalls := fun _ _ _ _ _ _ _ => rfl

/-- The calls of others are not those of the run. -/
theorem ownCalls_interfere {w w' : World σ} {r : Except Failure Unit} {l : List Event}
    (h : Exec.interfere w = some (r, w', l)) : ownCalls l = [] :=
  follows_interfere passes_noOwnCalls.frames (fun _ _ _ => rfl) _ _ _ _ h

/-! ## Lookups -/

/-- The response that a lookup ends a run with. -/
def CacheLookup.hit : CacheLookup → Option CachedResponse
  | .fresh response => some response
  | .stale response => some response
  | .refresh _ => none
  | .miss => none

/-- What a hit returns: the stored response, with the status so far where it has none. -/
def CachedResponse.replay (hit : CachedResponse) (status : Option Nat) : PipelineOutput :=
  { state := hit.body, contentType := hit.contentType, statusCode := hit.statusCode.or status }

/-- The saves that a lookup leaves for the end of the run. -/
def savesAfter (key : String) (ttl : Nat) : CacheLookup → List PendingCacheSave
  | .fresh _ => []
  | .stale _ => []
  | .refresh _ => [{ key := key, ttl := ttl, refreshing := true }]
  | .miss => [{ key := key, ttl := ttl, refreshing := false }]

/-- What the cache middleware leaves in a context without a hit: a save, or the hit. -/
theorem afterLookup_eq {c : PipelineContext} (hc : c.cacheHit = none) (key : String) (ttl : Nat) (lookup : CacheLookup) :
    (CacheMiddleware.afterLookup c key ttl lookup).pendingCacheSaves = c.pendingCacheSaves ++ savesAfter key ttl lookup ∧
      (CacheMiddleware.afterLookup c key ttl lookup).cacheHit = lookup.hit := by
  cases lookup <;> simp [CacheMiddleware.afterLookup, savesAfter, CacheLookup.hit, hc]

/-- A call is answered by the store and logged. -/
theorem serve_apply (now : Nat) (c : CacheCall) (w : World σ) :
    Exec.serve now c w = some (.ok (w.cache.serve now c).1, { w with cache := (w.cache.serve now c).2 },
      [.cache true now c (w.cache.serve now c).1]) := rfl

/-- A lookup makes one call. -/
theorem lookupKey_eq_some {key : String} {w w' : World σ} {r : Except Failure CacheLookup} {l : List Event}
    (h : Exec.lookupKey key w = some (r, w', l)) :
    ∃ lookup, r = .ok lookup ∧ ownCalls l = [(.lookup key, .looked lookup)] := by
  unfold Exec.lookupKey at h
  rw [Prog.gets_bind] at h
  obtain ⟨_, hi, -⟩ | ⟨_, w₁, l₁, l₂, hi, hrest, rfl⟩ := Prog.bind_eq_some h
  · cases hi
  rw [Prog.bind_of_ok (serve_apply _ _ _)] at hrest
  obtain ⟨l₃, hpure, rfl⟩ := Prog.logged_eq_some hrest
  cases hpure
  exact ⟨_, rfl, by rw [ownCalls_append, ownCalls_interfere hi]; rfl⟩

/-- What an access to the cache leaves of a context: nothing was looked up and its saves are as they were, or one key was looked up
and left its save or its hit. -/
def Consults (c c' : PipelineContext) (calls : List (CacheCall × CacheAnswer)) : Prop :=
  (calls = [] ∧ c'.pendingCacheSaves = c.pendingCacheSaves ∧ c'.cacheHit = none) ∨
    ∃ key ttl lookup, calls = [(.lookup key, .looked lookup)] ∧
      c'.pendingCacheSaves = c.pendingCacheSaves ++ savesAfter key ttl lookup ∧ c'.cacheHit = lookup.hit

/-- The cache middleware looks its key up once, and keeps a save or the hit. -/
theorem cacheMiddleware_consults {config : String} {c : PipelineContext} (hc : c.cacheHit = none) {w w' : World σ}
    {r : Except Failure PipelineContext} {l : List Event}
    (h : CacheMiddleware.execute env config c w = some (r, w', l)) :
    ∃ c', r = .ok c' ∧ Consults c c' (ownCalls l) := by
  unfold CacheMiddleware.execute at h
  dsimp only at h
  split at h
  · rw [Exec.modifyReq, Prog.modify_bind] at h
    obtain ⟨_, hl, -⟩ | ⟨lookup, w₁, l₁, l₂, hl, hpure, rfl⟩ := Prog.bind_eq_some h
    · obtain ⟨_, he, -⟩ := lookupKey_eq_some hl
      cases he
    · obtain ⟨lookup', he, hcalls⟩ := lookupKey_eq_some hl
      obtain rfl : lookup = lookup' := Except.ok.inj he
      cases hpure
      obtain ⟨hs, hh⟩ := afterLookup_eq hc _ _ lookup
      exact ⟨_, rfl, Or.inr ⟨_, _, lookup, by rw [List.append_nil, hcalls], hs, hh⟩⟩
  · cases h
    exact ⟨c, rfl, Or.inl ⟨rfl, rfl, hc⟩⟩

/-- A call of a middleware looks at most one key up; a failed one looks none up. -/
theorem invoke_consults {name : String} {args : List String} {config : String} {c : PipelineContext}
    (hc : c.cacheHit = none) {target : Option String} {w w' : World σ}
    {r : Except Failure (MiddlewareOutput × PipelineContext)} {l : List Event}
    (h : invoke env run name args config c target w = some (r, w', l)) :
    (∃ f, r = .error f ∧ ownCalls l = []) ∨ ∃ o c', r = .ok (o, c') ∧ Consults c c' (ownCalls l) := by
  unfold invoke at h
  dsimp only at h
  cases hm : env.registry name with
  | none =>
    rw [hm] at h
    cases h
    exact Or.inl ⟨_, rfl, rfl⟩
  | some m =>
    rw [hm] at h
    cases m with
    | cache =>
      obtain ⟨l', hcache, rfl⟩ := Prog.emit_bind_eq_some h
      rw [ownCalls_cons_none rfl]
      obtain ⟨_, hx, -⟩ | ⟨c₁, w₁, l₁, l₂, hx, hpure, rfl⟩ := Prog.bind_eq_some hcache
      · obtain ⟨_, he, -⟩ := cacheMiddleware_consults hc hx
        cases he
      · obtain ⟨c', he, hcons⟩ := cacheMiddleware_consults hc hx
        obtain rfl : c₁ = c' := Except.ok.inj he
        cases hpure
        rw [List.append_nil]
        exact Or.inr ⟨_, _, rfl, hcons⟩
    | graphql resolvers execute =>
      obtain ⟨l', hgraphql, rfl⟩ := Prog.emit_bind_eq_some h
      rw [ownCalls_cons_none rfl]
      have hquiet : ∀ call, Prog.Follows NoOwnCalls ((execute call).perform run) := fun _ =>
        follows_perform passes_noOwnCalls.chain passes_noOwnCalls.records coversRuns_noOwnCalls _
      obtain ⟨f, hx, rfl⟩ | ⟨⟨output, state⟩, w₁, l₁, l₂, hx, hpure, rfl⟩ := Prog.bind_eq_some hgraphql
      · exact Or.inl ⟨f, rfl, hquiet _ _ _ _ _ hx⟩
      · cases hpure
        rw [List.append_nil]
        exact Or.inr ⟨_, _, rfl, Or.inl ⟨hquiet _ _ _ _ _ hx, rfl, hc⟩⟩
    | other behavior execute =>
      obtain ⟨l', hother, rfl⟩ := Prog.emit_bind_eq_some h
      rw [ownCalls_cons_none rfl]
      rw [Prog.update_bind] at hother
      obtain ⟨f, hx, rfl⟩ | ⟨⟨output, state⟩, w₁, l₁, l₂, hx, hpure, rfl⟩ := Prog.bind_eq_some hother
      · obtain ⟨-, -, rfl⟩ := Prog.ofExcept_eq_some hx
        exact Or.inl ⟨f, rfl, rfl⟩
      · obtain ⟨-, -, rfl⟩ := Prog.ofExcept_eq_some hx
        cases hpure
        exact Or.inr ⟨_, _, rfl, Or.inl ⟨rfl, rfl, hc⟩⟩

/-! ## Steps -/

/-- A new state keeps the saves and the hit. -/
theorem updatePipelineState_saves (c : PipelineContext) (value : Value) (behavior : StateBehavior) (isLastStep : Bool) :
    (updatePipelineState c value behavior isLastStep).pendingCacheSaves = c.pendingCacheSaves ∧
      (updatePipelineState c value behavior isLastStep).cacheHit = c.cacheHit := by
  have hmerge : (c.mergeState value).pendingCacheSaves = c.pendingCacheSaves ∧ (c.mergeState value).cacheHit = c.cacheHit := by
    unfold PipelineContext.mergeState
    split <;> exact ⟨rfl, rfl⟩
  have hrestore : ∀ backups, ((c.replaceState value).restoreSystemKeys backups).pendingCacheSaves = c.pendingCacheSaves ∧
      ((c.replaceState value).restoreSystemKeys backups).cacheHit = c.cacheHit := by
    intro backups
    unfold PipelineContext.restoreSystemKeys
    split <;> exact ⟨rfl, rfl⟩
  unfold updatePipelineState
  cases behavior with
  | merge => exact hmerge
  | transform =>
    cases isLastStep with
    | true => exact ⟨rfl, rfl⟩
    | false => exact hrestore _
  | render => exact ⟨rfl, rfl⟩
  | readOnly => exact ⟨rfl, rfl⟩

/-- A result changes the state of its pipeline, not its saves. -/
theorem applyResultToState_saves (env : ExecutionEnv σ) (c : PipelineContext) (effName : String) (value : Value) (target : Option String)
    (isLastStep : Bool) :
    (applyResultToState env c effName value target isLastStep).pendingCacheSaves = c.pendingCacheSaves ∧
      (applyResultToState env c effName value target isLastStep).cacheHit = c.cacheHit := by
  unfold applyResultToState
  dsimp only
  split
  · split
    · exact ⟨rfl, rfl⟩
    · exact updatePipelineState_saves _ _ _ _
  · exact updatePipelineState_saves _ _ _ _

/-- A hit returns its response; without one the step goes on. The saves stay. -/
theorem finishRegular_saves (s : RegularStep) (ctx : StepContext) (result : PipelineOutput) (target : Option String)
    (cleanup isLastStep : Bool) {outcome : StepOutcome} {ctx' : StepContext}
    (h : finishRegular env s ctx result target cleanup isLastStep = (outcome, ctx')) :
    ctx'.pipeCtx.pendingCacheSaves = ctx.pipeCtx.pendingCacheSaves ∧ ctx'.pipeCtx.cacheHit = none ∧
      match ctx.pipeCtx.cacheHit with
      | some hit => ∃ status, outcome = .ret (hit.replay status)
      | none => outcome = .continue := by
  have hsaves := applyResultToState_saves env ctx.pipeCtx (effectiveName env s)
    (overrideErrorType result.state (s.condition.bind getErrorFromTagExpr)) target isLastStep
  unfold finishRegular at h
  dsimp only at h
  rw [hsaves.2] at h
  cases hhit : ctx.pipeCtx.cacheHit with
  | none =>
    rw [hhit] at h
    cases h
    exact ⟨hsaves.1, rfl, rfl⟩
  | some hit =>
    rw [hhit] at h
    cases h
    exact ⟨hsaves.1, rfl, _, rfl⟩

/-- What a step makes of the cache: nothing; a key that it missed or is to refresh, with a save; or a hit, which it returns. -/
inductive StepCalls (ctx : StepContext) : Except Failure (StepOutcome × StepContext) → List (CacheCall × CacheAnswer) → Prop
  | failed (f : Failure) : StepCalls ctx (.error f) []
  | none {outcome : StepOutcome} {ctx' : StepContext} (hsaves : ctx'.pipeCtx.pendingCacheSaves = ctx.pipeCtx.pendingCacheSaves)
      (hhit : ctx'.pipeCtx.cacheHit = none) : StepCalls ctx (.ok (outcome, ctx')) []
  | missed {ctx' : StepContext} {key : String} {ttl : Nat} {lookup : CacheLookup} (hlookup : lookup.hit = none)
      (hsaves : ctx'.pipeCtx.pendingCacheSaves = ctx.pipeCtx.pendingCacheSaves ++ savesAfter key ttl lookup)
      (hhit : ctx'.pipeCtx.cacheHit = none) : StepCalls ctx (.ok (.continue, ctx')) [(.lookup key, .looked lookup)]
  | hit {ctx' : StepContext} {key : String} {lookup : CacheLookup} {response : CachedResponse} {status : Option Nat}
      (hlookup : lookup.hit = some response)
      (hsaves : ctx'.pipeCtx.pendingCacheSaves = ctx.pipeCtx.pendingCacheSaves) (hhit : ctx'.pipeCtx.cacheHit = none) :
      StepCalls ctx (.ok (.ret (response.replay status), ctx')) [(.lookup key, .looked lookup)]

/-- A hit leaves no save. -/
theorem savesAfter_of_hit {lookup : CacheLookup} {response : CachedResponse} (h : lookup.hit = some response) (key : String)
    (ttl : Nat) : savesAfter key ttl lookup = [] := by
  cases lookup <;> first | rfl | cases h

/-- Only a cache step calls the store itself. -/
theorem runCoreLogic_consults {s : RegularStep} {ctx : StepContext} (hc : ctx.pipeCtx.cacheHit = none) {mode : ExecutionMode}
    {config : String} {input : Value} {target : Option String} {w w' : World σ}
    {r : Except Failure (PipelineOutput × PipelineContext)} {l : List Event}
    (h : runCoreLogic env run s ctx mode config input target w = some (r, w', l)) :
    (∃ f, r = .error f ∧ ownCalls l = []) ∨ ∃ o c', r = .ok (o, c') ∧ Consults ctx.pipeCtx c' (ownCalls l) := by
  have hquiet : ∀ {x : Exec σ PipelineOutput}, Prog.Follows NoOwnCalls x →
      (x >>= fun result => pure (result, ctx.pipeCtx)) w = some (r, w', l) →
      (∃ f, r = .error f ∧ ownCalls l = []) ∨ ∃ o c', r = .ok (o, c') ∧ Consults ctx.pipeCtx c' (ownCalls l) := by
    intro x hx hw
    obtain ⟨f, hfail, rfl⟩ | ⟨o, w₁, l₁, l₂, hok, hpure, rfl⟩ := Prog.bind_eq_some hw
    · exact Or.inl ⟨f, rfl, hx _ _ _ _ hfail⟩
    · cases hpure
      rw [List.append_nil]
      exact Or.inr ⟨o, _, rfl, Or.inl ⟨hx _ _ _ _ hok, rfl, hc⟩⟩
  have hstandard : ∀ (temp : PipelineContext), temp.cacheHit = none → temp.pendingCacheSaves = [] →
      (handleStandardExecution env run (effectiveName env s) s.args config temp target >>= fun p =>
        pure (p.1, { ctx.pipeCtx with
          pendingCacheSaves := ctx.pipeCtx.pendingCacheSaves ++ p.2.pendingCacheSaves
          cacheHit := p.2.cacheHit }) : Exec σ (PipelineOutput × PipelineContext)) w = some (r, w', l) →
      (∃ f, r = .error f ∧ ownCalls l = []) ∨ ∃ o c', r = .ok (o, c') ∧ Consults ctx.pipeCtx c' (ownCalls l) := by
    intro temp hhit hnil hw
    obtain ⟨f, hfail, rfl⟩ | ⟨⟨o, c⟩, w₁, l₁, l₂, hok, hpure, rfl⟩ := Prog.bind_eq_some hw
    · obtain ⟨f', hi, he⟩ | ⟨⟨o, c⟩, _, _, _, -, hp, -⟩ := Prog.bind_eq_some hfail
      · obtain ⟨_, -, hcalls⟩ | ⟨_, _, he', -⟩ := invoke_consults hhit hi
        · exact Or.inl ⟨f, rfl, hcalls⟩
        · cases he'
      · cases hp
    · cases hpure
      obtain ⟨⟨o', c'⟩, w₂, l₃, l₄, hi, hp, rfl⟩ := Prog.bind_eq_ok hok
      cases hp
      rw [List.append_nil, List.append_nil]
      obtain ⟨_, he, -⟩ | ⟨_, _, he, hcons⟩ := invoke_consults hhit hi
      · cases he
      · cases he
        refine Or.inr ⟨_, _, rfl, ?_⟩
        rcases hcons with ⟨hcalls, hs, hh⟩ | ⟨key, ttl, lookup, hcalls, hs, hh⟩
        · exact Or.inl ⟨hcalls, by simp [hs, hnil], hh⟩
        · exact Or.inr ⟨key, ttl, lookup, hcalls, by simp [hs, hnil], hh⟩
  cases mode with
  | join => exact hquiet (follows_handleJoin passes_noOwnCalls coversTasks_noOwnCalls (fun _ _ _ => rfl) _ _ _) h
  | recursive => exact hquiet (follows_handleRecursivePipeline passes_noOwnCalls.chain coversRuns_noOwnCalls.nested _ _ _ _) h
  | standard => exact hstandard _ rfl rfl h
  | async name => exact hstandard _ rfl rfl h

/-- What the call of a step and its result make of the cache, on a context that differs in its state at most. -/
theorem coreResult_calls {s : RegularStep} {ctx ctx₁ : StepContext}
    (hsaves₁ : ctx₁.pipeCtx.pendingCacheSaves = ctx.pipeCtx.pendingCacheSaves) (hhit₁ : ctx₁.pipeCtx.cacheHit = none)
    {mode : ExecutionMode} {config : String} {input : Value} {target : Option String} {cleanup isLastStep : Bool} {w w' : World σ}
    {r : Except Failure (StepOutcome × StepContext)} {l : List Event}
    (h : (do
        let (result, pipeCtx) ← runCoreLogic env run s ctx₁ mode config input target
        pure (finishRegular env s { ctx₁ with pipeCtx := pipeCtx } result target cleanup isLastStep) :
          Exec σ (StepOutcome × StepContext)) w = some (r, w', l)) : StepCalls ctx r (ownCalls l) := by
  obtain ⟨f, hcore, rfl⟩ | ⟨⟨result, c'⟩, w₂, l₃, l₄, hcore, hpure, rfl⟩ := Prog.bind_eq_some h
  · obtain ⟨_, -, hcalls⟩ | ⟨_, _, he, -⟩ := runCoreLogic_consults hhit₁ hcore
    · rw [hcalls]
      exact .failed f
    · cases he
  · obtain ⟨_, he, -⟩ | ⟨_, _, he, hcons⟩ := runCoreLogic_consults hhit₁ hcore
    · cases he
    cases he
    dsimp only at hpure
    generalize hfin : finishRegular env s _ result target cleanup isLastStep = fin at hpure
    obtain ⟨outcome, ctx'⟩ := fin
    cases hpure
    obtain ⟨hsaves, hhit, hout⟩ := finishRegular_saves _ _ _ _ _ _ hfin
    rw [List.append_nil]
    rcases hcons with ⟨hcalls, hs, hh⟩ | ⟨key, ttl, lookup, hcalls, hs, hh⟩
    · rw [hcalls]
      exact .none (hsaves.trans (hs.trans hsaves₁)) hhit
    · rw [hcalls]
      dsimp only at hsaves hout
      rw [hh] at hout
      rw [hs, hsaves₁] at hsaves
      cases hlookup : lookup.hit with
      | none =>
        rw [hlookup] at hout
        cases hout
        exact .missed hlookup hsaves hhit
      | some response =>
        rw [hlookup] at hout
        obtain ⟨status, rfl⟩ := hout
        rw [savesAfter_of_hit hlookup, List.append_nil] at hsaves
        exact .hit hlookup hsaves hhit

/-- The core of a step calls the store as its middleware does. -/
theorem executeCore_calls {s : RegularStep} {ctx : StepContext} (hc : ctx.pipeCtx.cacheHit = none) {mode : ExecutionMode}
    {isLastStep : Bool} {w w' : World σ} {r : Except Failure (StepOutcome × StepContext)} {l : List Event}
    (h : executeCore env run s ctx mode isLastStep w = some (r, w', l)) : StepCalls ctx r (ownCalls l) := by
  unfold executeCore at h
  dsimp only at h
  generalize resolveConfigAndAutoname env s.location (effectiveName env s) (rawConfig env s) ctx.pipeCtx.state = resolved at h
  obtain ⟨_, hlog, -⟩ | ⟨_, w₁, l₁, l₂, hlog, hrest, rfl⟩ := Prog.bind_eq_some h
  · unfold logPipelineCall at hlog
    split at hlog <;> cases hlog
  have hnil : ownCalls l₁ = [] := follows_logPipelineCall passes_noOwnCalls.frames _ _ _ _ _ _ _ hlog
  rw [ownCalls_append, hnil, List.nil_append]
  -- the auto-named context differs from the context in its state only
  refine coreResult_calls ?_ ?_ hrest
  · split <;> rfl
  · split <;> exact hc

/-- So does a regular step. -/
theorem executeRegular_calls {s : RegularStep} {ctx : StepContext} (hc : ctx.pipeCtx.cacheHit = none) {w w' : World σ}
    {r : Except Failure (StepOutcome × StepContext)} {l : List Event}
    (h : executeRegular env run s ctx w = some (r, w', l)) : StepCalls ctx r (ownCalls l) := by
  unfold executeRegular at h
  rw [Exec.req, Prog.gets_bind] at h
  split at h
  · rw [Exec.req, Prog.gets_bind] at h
    cases hmode : detectExecutionMode (effectiveName env s) s.condition with
    | async name =>
      rw [hmode] at h
      obtain ⟨_, hs, -⟩ | ⟨_, w₁, l₁, l₂, hs, hpure, rfl⟩ := Prog.bind_eq_some h
      · cases hs
      · cases hs
        cases hpure
        exact .none rfl hc
    | standard =>
      rw [hmode] at h
      exact executeCore_calls hc h
    | join =>
      rw [hmode] at h
      exact executeCore_calls hc h
    | recursive =>
      rw [hmode] at h
      exact executeCore_calls hc h
  · cases h
    exact .none rfl hc

/-! ## Control flow -/

/-- The outcome leaves the saves and the hit of a context as they are. -/
def KeepsSaves (ctx : StepContext) (p : StepOutcome × StepContext) : Prop :=
  p.2.pipeCtx.pendingCacheSaves = ctx.pipeCtx.pendingCacheSaves ∧ p.2.pipeCtx.cacheHit = ctx.pipeCtx.cacheHit

/-- A branch keeps the saves of its caller. -/
theorem yields_executeBranch (entry : Entry) (pipeline : Pipeline) (ctx : StepContext) :
    Prog.Yields (KeepsSaves ctx) (executeBranch run entry pipeline ctx) :=
  Prog.yields_bind fun _ => Prog.yields_pure ⟨rfl, rfl⟩

/-- An `if` keeps them. -/
theorem yields_handleIfStep (condition thenBranch : Pipeline) (elseBranch : Option Pipeline) (ctx : StepContext) :
    Prog.Yields (KeepsSaves ctx) (handleIfStep run condition thenBranch elseBranch ctx) := by
  refine Prog.yields_bind fun cond => ?_
  split
  · exact yields_executeBranch _ _ _
  · cases elseBranch with
    | some pipeline => exact yields_executeBranch _ _ _
    | none => exact Prog.yields_pure ⟨rfl, rfl⟩

/-- A `dispatch` keeps them. -/
theorem yields_handleDispatchStep (branches : List DispatchBranch) (default : Option Pipeline) (ctx : StepContext) :
    Prog.Yields (KeepsSaves ctx) (handleDispatchStep env run branches default ctx) := by
  refine Prog.yields_bind fun selected => ?_
  cases selected with
  | some pipeline => exact yields_executeBranch _ _ _
  | none => exact Prog.yields_pure ⟨rfl, rfl⟩

theorem keepsSaves_withState (ctx : StepContext) (outcome : StepOutcome) (state : Value) :
    KeepsSaves ctx (outcome, ctx.withState state) := ⟨rfl, rfl⟩

/-- A loop keeps them. -/
theorem yields_handleForeachStep (selector : String) (pipeline : Pipeline) (ctx : StepContext) :
    Prog.Yields (KeepsSaves ctx) (handleForeachStep run selector pipeline ctx) := by
  unfold handleForeachStep
  generalize JsonPath.getValue ctx.pipeCtx.state selector = found
  split
  · exact Prog.yields_bind fun _ => Prog.yields_pure (keepsSaves_withState ctx _ _)
  · exact Prog.yields_fail _

/-- A `result` keeps them. -/
theorem yields_handleResultStep (branches : List ResultBranch) (ctx : StepContext) :
    Prog.Yields (KeepsSaves ctx) (handleResultStep run branches ctx) := by
  unfold handleResultStep
  dsimp only
  split
  · exact Prog.yields_bind fun _ => Prog.yields_pure ⟨rfl, rfl⟩
  · exact Prog.yields_pure ⟨rfl, rfl⟩

/-- A step other than a regular one makes no call of its own and keeps the saves: those of the runs it starts are theirs. -/
theorem dispatchStep_quiet (env : ExecutionEnv σ) (run : RunFn σ) {step : PipelineStep} (hstep : ∀ s, step ≠ .regular s) (ctx : StepContext) :
    Prog.Follows NoOwnCalls (dispatchStep env run step ctx) ∧ Prog.Yields (KeepsSaves ctx) (dispatchStep env run step ctx) := by
  unfold dispatchStep
  cases step with
  | regular s => exact absurd rfl (hstep s)
  | result branches location =>
    exact ⟨follows_handleResultStep passes_noOwnCalls.chain coversRuns_noOwnCalls.nested branches ctx,
      yields_handleResultStep branches ctx⟩
  | ifStep condition thenBranch elseBranch location =>
    exact ⟨follows_handleIfStep passes_noOwnCalls.chain coversRuns_noOwnCalls.nested condition thenBranch elseBranch ctx,
      yields_handleIfStep condition thenBranch elseBranch ctx⟩
  | dispatch branches default location =>
    exact ⟨follows_handleDispatchStep passes_noOwnCalls.chain coversRuns_noOwnCalls.nested branches default ctx,
      yields_handleDispatchStep branches default ctx⟩
  | foreach selector pipeline location =>
    exact ⟨follows_handleForeachStep passes_noOwnCalls.chain coversRuns_noOwnCalls.nested selector pipeline ctx,
      yields_handleForeachStep selector pipeline ctx⟩

/-- Every kind of step calls the store as a regular step does, or not at all. -/
theorem dispatchStep_calls {step : PipelineStep} (ctx : StepContext) (hc : ctx.pipeCtx.cacheHit = none) {w w' : World σ}
    {r : Except Failure (StepOutcome × StepContext)} {l : List Event}
    (h : dispatchStep env run step ctx w = some (r, w', l)) : StepCalls ctx r (ownCalls l) := by
  by_cases hregular : ∃ s, step = .regular s
  · obtain ⟨s, rfl⟩ := hregular
    unfold dispatchStep at h
    exact executeRegular_calls hc h
  · obtain ⟨hcalls, hkeeps⟩ := dispatchStep_quiet env run (fun s hs => hregular ⟨s, hs⟩) ctx
    rw [show ownCalls l = [] from hcalls _ _ _ _ h]
    cases r with
    | error f => exact .failed f
    | ok p =>
      obtain ⟨hs, hh⟩ := hkeeps _ _ _ _ h
      exact .none hs (hh.trans hc)

/-- A settled step has made the calls of its handler; a failure turned into an envelope keeps the saves. -/
theorem executeStep_calls {step : PipelineStep} {ctx : StepContext} (hc : ctx.pipeCtx.cacheHit = none) {w w' : World σ}
    {r : Except Failure (StepOutcome × StepContext)} {l : List Event}
    (h : executeStep env run step ctx w = some (r, w', l)) : StepCalls ctx r (ownCalls l) := by
  obtain ⟨message, rfl, rfl, -⟩ | ⟨state, w₁, raw, w₂, l₁, hd, -, -, rfl, rfl⟩ := executeStep_eq_some h
  · exact .failed _
  rw [ownCalls_append, show ownCalls [Event.settled step state _ _] = [] from rfl, List.append_nil]
  have hcalls : StepCalls (ctx.withState state) raw (ownCalls l₁) := dispatchStep_calls (ctx.withState state) hc hd
  generalize ownCalls l₁ = calls at hcalls ⊢
  cases raw with
  | ok p =>
    have hsettle : settle step (ctx.withState state) (.ok p) = .ok p := by cases step <;> rfl
    rw [hsettle]
    cases hcalls with
    | none hs hh => exact .none hs hh
    | missed hl hs hh => exact .missed hl hs hh
    | hit hl hs hh => exact .hit hl hs hh
  | error f =>
    cases hcalls
    cases hr : settle step (ctx.withState state) (.error f) with
    | error f' => exact .failed f'
    | ok p =>
      obtain ⟨outcome, ctx'⟩ := p
      have hkeeps : ctx'.pipeCtx.pendingCacheSaves = ctx.pipeCtx.pendingCacheSaves ∧ ctx'.pipeCtx.cacheHit = none := by
        unfold settle at hr
        split at hr
        · split at hr
          · cases hr
            exact ⟨rfl, hc⟩
          · cases hr
        · cases hr
      exact .none hkeeps.1 hkeeps.2

end WebPipe
