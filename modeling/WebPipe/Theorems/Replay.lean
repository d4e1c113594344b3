import WebPipe.Theorems.CacheRefinement
import WebPipe.Theorems.RefreshSlots

/-!
# A hit replays the run that was stored

What a run puts in the store is what it returns, and an error, an envelope or a status of 500 and above is not put. A lookup answered
with a response ends the run with it: no step is entered after the cache step. Only a put of an earlier save can still get in the way,
when the clock cannot represent its deadlines.
-/

namespace WebPipe

variable {σ : Type} {env : ExecutionEnv σ} {run : RunFn σ}

/-! ## What is stored -/

/-- A run that returns puts what it returns, and only what may be cached. -/
theorem put_of_returned {output : PipelineOutput} {l : List Event} (h : RunCalls (.ok output) l) {t : Nat} {key : String}
    {saved : CachedResponse} {ttlSecs : Option Nat} {answer : CacheAnswer}
    (hput : .cache true t (.put key saved ttlSecs) answer ∈ l) : saved = output.response ∧ uncacheable output = false := by
  cases h with
  | returned hkeeps hsaves =>
    rcases List.mem_append.mp hput with hmem | hmem
    · obtain ⟨_, _, he⟩ := hkeeps.isLookup (ownCalls_of_mem hmem)
      cases he
    · rcases hsaves.only _ (ownCalls_of_mem hmem) with ⟨-, _, -, he⟩ | ⟨hu, _, -, _, he⟩
      · cases he
      · cases he
        exact ⟨rfl, hu⟩

/-- A run that ends in an error puts nothing. -/
theorem no_put_of_error {e : WebPipeError} {l : List Event} (h : RunCalls (.error (.err e)) l) (t : Nat) (key : String)
    (saved : CachedResponse) (ttlSecs : Option Nat) (answer : CacheAnswer) :
    .cache true t (.put key saved ttlSecs) answer ∉ l := by
  intro hput
  cases h with
  | failed hkeeps =>
    obtain ⟨_, _, he⟩ := hkeeps.isLookup (ownCalls_of_mem hput)
    cases he

/-! ## What a hit returns -/

/-- The event is no step of the run's own pipeline. -/
def Event.NoTurn : Event → Prop
  | .entered _ _ => False
  | .skipped _ _ => False
  | _ => True

/-- Within one step no other step of the pipeline is entered. -/
theorem noTurn_executeStep {step : PipelineStep} {ctx : StepContext} {w w' : World σ}
    {r : Except Failure (StepOutcome × StepContext)} {l : List Event}
    (h : executeStep env run step ctx w = some (r, w', l)) : ∀ e ∈ l, e.NoTurn := by
  have hcovers : Covers env run (fun (_ : World σ) l (_ : World σ) => ∀ e ∈ l, e.NoTurn) :=
    { toPasses := passes_emits Event.NoTurn
      runs := by simp [CoversRuns, Event.NoTurn]
      tasks := by simp [CoversTasks, Event.NoTurn]
      invoked := by simp [Event.NoTurn]
      spawned := by simp [Event.NoTurn]
      joined := by simp [Event.NoTurn]
      cache := by simp [CoversCache, Event.NoTurn]
      settled := by simp [Event.NoTurn] }
  exact follows_executeStep hcovers step ctx w r w' l h

theorem noTurn_of_isCache {e : Event} (h : e.IsCache) : e.NoTurn := by
  cases e <;> trivial

/-- A step whose lookup was answered with a response returns it. -/
theorem StepCalls.returns_hit {ctx : StepContext} {r : Except Failure (StepOutcome × StepContext)}
    {calls : List (CacheCall × CacheAnswer)} (h : StepCalls ctx r calls) {key : String} {lookup : CacheLookup}
    {response : CachedResponse} (hcall : (.lookup key, .looked lookup) ∈ calls) (hhit : lookup.hit = some response) :
    ∃ status ctx', r = .ok (.ret (response.replay status), ctx') := by
  cases h with
  | failed => cases hcall
  | none => cases hcall
  | missed hmiss =>
    cases List.mem_singleton.mp hcall
    rw [hhit] at hmiss
    cases hmiss
  | hit hhit' =>
    cases List.mem_singleton.mp hcall
    rw [hhit] at hhit'
    cases hhit'
    exact ⟨_, _, rfl⟩

/-- A lookup answered with a response found it resident. -/
theorem peek_of_hit {c : CacheStore} {now : Nat} {key : String} {response : CachedResponse}
    (h : (c.lookup now key).1.hit = some response) : ∃ entry, c.inner.peek key = some entry ∧ entry.response = response := by
  rcases c.lookup_cases now key with ⟨-, hl⟩ | ⟨e, hp, ⟨-, hl⟩ | ⟨-, -, -, hl⟩ | ⟨-, -, -, hl⟩ | ⟨-, -, hl⟩⟩
  · rw [hl] at h
    cases h
  · rw [hl] at h
    exact ⟨e, hp, Option.some.inj h⟩
  · rw [hl] at h
    cases h
  · rw [hl] at h
    exact ⟨e, hp, Option.some.inj h⟩
  · rw [hl] at h
    cases h

/-- What a lookup is answered with was stored last under its key. -/
theorem hit_lastStored {cfg : CacheSettings} {H A B : List CacheRecord} {c c' : CacheStore} {t : Nat} {key : String}
    {lookup : CacheLookup} {response : CachedResponse} (hH : CacheStore.Serves (.ofSettings cfg) H c)
    (hserves : c.Serves (A ++ { now := t, call := .lookup key, answer := .looked lookup } :: B) c')
    (hhit : lookup.hit = some response) : CacheStore.lastStored (H ++ A) key = some response := by
  obtain ⟨c₁, h₁, h₂⟩ := hserves.split
  generalize hrecord : ({ now := t, call := .lookup key, answer := .looked lookup } : CacheRecord) = record at h₂
  cases h₂ with
  | cons _ =>
    cases hrecord
    obtain ⟨entry, hpeek, rfl⟩ := peek_of_hit hhit
    exact (hH.trans h₁).remembers_ofSettings key entry hpeek

/-! ## Puts in time -/

theorem undercounts_of_serves {c c' : CacheStore} {records : List CacheRecord} (h : c.Serves records c') (hu : c.Undercounts) :
    c'.Undercounts := by
  induction h with
  | nil => exact hu
  | @cons c _ now call _ _ ih =>
    refine ih ?_
    rw [CacheStore.serve_snd]
    exact CacheStore.undercounts_step hu (now, call)

/-- A recorded call was answered by the store that the calls before it led to. -/
theorem answer_of_serves {c c' : CacheStore} {a b : List CacheRecord} {record : CacheRecord} (h : c.Serves (a ++ record :: b) c') :
    ∃ c₁, c.Serves a c₁ ∧ record.answer = (c₁.serve record.now record.call).1 := by
  obtain ⟨c₁, h₁, h₂⟩ := h.split
  cases h₂ with
  | cons _ => exact ⟨c₁, h₁, rfl⟩

/-- A call panics exactly when it is a put that is not in time. -/
theorem serve_panicked_iff {c : CacheStore} (hu : c.Undercounts) (now : Nat) (call : CacheCall) :
    (c.serve now call).1 = .put .panicked ↔ ∃ key saved ttlSecs, call = .put key saved ttlSecs ∧ ¬ c.InTime now saved ttlSecs := by
  cases call with
  | put key saved ttlSecs =>
    have hpanic := CacheStore.panicked_iff_not_inTime hu now key saved ttlSecs
    constructor
    · intro h
      exact ⟨key, saved, ttlSecs, rfl, hpanic.mp (CacheAnswer.put.inj h)⟩
    · rintro ⟨_, _, _, he, hlate⟩
      cases he
      exact congrArg CacheAnswer.put (hpanic.mpr hlate)
  | lookup key => exact ⟨nofun, nofun⟩
  | clearRefresh key => exact ⟨nofun, nofun⟩

/-- No put of a log panics exactly when all are in time. -/
theorem puts_inTime_iff {cfg : CacheSettings} {H : List CacheRecord} {c c' : CacheStore} {l₀ l : List Event}
    (hH : CacheStore.Serves (.ofSettings cfg) H c) (hserves : c.Serves (callsOf (l₀ ++ l)) c') :
    (∀ x ∈ ownCalls l, x.2 ≠ .put .panicked) ↔
      ∀ t key saved ttlSecs answer, .cache true t (.put key saved ttlSecs) answer ∈ l → c.InTime t saved ttlSecs := by
  -- each call of the log was answered by a store with the same limits, which counts no entry twice
  have hanswer : ∀ {t : Nat} {call : CacheCall} {answer : CacheAnswer}, .cache true t call answer ∈ l →
      (answer = .put .panicked ↔ ∃ key saved ttlSecs, call = .put key saved ttlSecs ∧ ¬ c.InTime t saved ttlSecs) := by
    intro t call answer hin
    obtain ⟨l₁, l₂, rfl⟩ := List.append_of_mem hin
    have hsplit : callsOf (l₀ ++ (l₁ ++ .cache true t call answer :: l₂)) =
        callsOf (l₀ ++ l₁) ++ { now := t, call := call, answer := answer } :: callsOf l₂ := by
      rw [← List.append_assoc, callsOf_append]
      rfl
    rw [hsplit] at hserves
    obtain ⟨c₁, h₁, hanswer⟩ := answer_of_serves hserves
    dsimp only at hanswer
    rw [hanswer, serve_panicked_iff (undercounts_of_serves (hH.trans h₁) (Nat.zero_le _))]
    simp only [h₁.sameLimits.inTime]
  constructor
  · intro h t key saved ttlSecs answer hin
    by_contra hlate
    exact h _ (ownCalls_of_mem hin) ((hanswer hin).mpr ⟨key, saved, ttlSecs, rfl, hlate⟩)
  · intro h x hx hpanic
    obtain ⟨t, hin⟩ := mem_ownCalls.mp hx
    obtain ⟨key, saved, ttlSecs, hcall, hlate⟩ := (hanswer hin).mp hpanic
    rw [hcall] at hin
    exact hlate (h t key saved ttlSecs _ hin)

/-- The saves that are left when a step returns its hit always end; the run returns the hit, or the clock panics at one of them. -/
theorem run_of_hit {pipeline : Pipeline} {input : Value} {handled : Option String} {pre rest : List PipelineStep}
    {step : PipelineStep} (hsteps : pipeline.steps = pre ++ step :: rest) {w w₁ w₂ : World σ} {s : LoopState} {l₁ l₂ : List Event}
    (hpre : loopSteps env run pipeline.steps 0 pre (.start input handled) w = some (.ok (.inl s), w₁, l₁))
    (hruns : s.skips step = false) {output : PipelineOutput} {ctx : StepContext}
    (hstep : executeStep env run step (s.stepContext pre.length pipeline.steps) w₁ = some (.ok (.ret output, ctx), w₂, l₂)) :
    ∃ r w' l₃, runPipeline env run pipeline input handled w =
        some (r, w', l₁ ++ (.entered step s.pipeCtx.state :: (l₂ ++ l₃))) ∧ (∀ e ∈ l₃, e.IsCache) ∧
      ((r = .ok output ∧ ∀ c ∈ ownCalls l₃, c.2 ≠ .put .panicked) ∨
        (r = .error .panic ∧ ∃ c ∈ ownCalls l₃, c.2 = .put .panicked)) := by
  obtain ⟨rs, w', l₃, hsaves, hcalls⟩ := saves_calls ctx.pipeCtx.pendingCacheSaves output w₂
  have hloop : loopSteps env run pipeline.steps 0 pipeline.steps (.start input handled) w = Prog.logged l₁
      ((iterate env run pipeline.steps pre.length step s >>= continueLoop env run pipeline.steps (pre.length + 1) rest) w₁) := by
    rw [congrArg (fun steps => loopSteps env run pipeline.steps 0 steps (.start input handled) w) hsteps, loopSteps_append,
      Prog.bind_of_ok hpre, continueLoop, Nat.zero_add, loopSteps_cons]
  have hturn : iterate env run pipeline.steps pre.length step s w₁ = Prog.logged [.entered step s.pipeCtx.state]
      (Prog.logged l₂ ((runPendingCacheSaves ctx.pipeCtx.pendingCacheSaves output >>= fun _ =>
        (pure (.inr output) : Exec σ (LoopState ⊕ PipelineOutput))) w₂)) := by
    rw [iterate_of_not_skips hruns, Prog.bind_of_ok (Prog.emit_apply _ _), Prog.bind_of_ok hstep]
  rcases hcalls.ends with ⟨rfl, hno⟩ | ⟨rfl, hpanic⟩
  · have hreturn : iterate env run pipeline.steps pre.length step s w₁ =
        some (.ok (.inr output), w', .entered step s.pipeCtx.state :: (l₂ ++ l₃)) := by
      rw [hturn, Prog.bind_of_ok hsaves]
      simp
    refine ⟨.ok output, w', l₃, ?_, hcalls.quiet, Or.inl ⟨rfl, hno⟩⟩
    rw [Prog.bind_of_ok hreturn] at hloop
    have hend : loopSteps env run pipeline.steps 0 pipeline.steps (.start input handled) w =
        some (.ok (.inr output), w', l₁ ++ (.entered step s.pipeCtx.state :: (l₂ ++ l₃))) := by
      rw [hloop]
      simp [continueLoop]
    unfold runPipeline
    rw [Prog.bind_of_ok hend]
    simp [finishRun]
  · have hfail : iterate env run pipeline.steps pre.length step s w₁ =
        some (.error .panic, w', .entered step s.pipeCtx.state :: (l₂ ++ l₃)) := by
      rw [hturn, Prog.bind_of_error hsaves]
      simp
    refine ⟨.error .panic, w', l₃, ?_, hcalls.quiet, Or.inr ⟨rfl, hpanic⟩⟩
    rw [Prog.bind_of_error hfail] at hloop
    exact Prog.bind_of_error hloop

/-! ## Replay -/

/-- A run whose step looks a key up and is answered with a response returns it. -/
def ReplaysHits (env : ExecutionEnv σ) (fuel : Nat) (pipeline : Pipeline) (input : Value) (w : World σ) : Prop :=
  ∀ pre step rest s w₁ w₂ l₁ a b r t key lookup response, pipeline.steps = pre ++ step :: rest →
    loopSteps env (executeWithErrorShortCircuit env fuel) pipeline.steps 0 pre (.start input none) w =
      some (.ok (.inl s), w₁, l₁) → s.skips step = false →
    executeStep env (executeWithErrorShortCircuit env fuel) step (s.stepContext pre.length pipeline.steps) w₁ =
      some (r, w₂, a ++ .cache true t (.lookup key) (.looked lookup) :: b) → lookup.hit = some response →
    ∃ status w' l, executePipelineInternal env (fuel + 1) pipeline input w = some (.ok (response.replay status), w', l)

/-- What a run stores is what it returns, and nothing of an error, an envelope or a status of 500 and above. A run whose cache step is
answered with a response, which is the one last stored under its key, ends without entering another step. It returns that response,
with the stored status where there is one, exactly when every put of an earlier save that is accepted has a TTL that the clock can
represent from the instant of the put. -/
theorem replay_iff (env : ExecutionEnv σ) (fuel : Nat) (pipeline : Pipeline) (input : Value) (handled : Option String)
    (w : World σ) :
    (∀ output w' l, executeWithErrorShortCircuit env (fuel + 1) pipeline input handled w = some (.ok output, w', l) →
      ∀ t key saved ttlSecs answer, .cache true t (.put key saved ttlSecs) answer ∈ l →
        saved = { body := output.state, contentType := output.contentType, statusCode := output.statusCode } ∧
          extractErrorType output.state = none ∧ ∀ status, output.statusCode = some status → status < 500) ∧
    (∀ e w' l, executeWithErrorShortCircuit env (fuel + 1) pipeline input handled w = some (.error (.err e), w', l) →
      ∀ t key saved ttlSecs answer, .cache true t (.put key saved ttlSecs) answer ∉ l) ∧
    (∀ cfg H pre step rest s w₁ w₂ l₁ a b r₁ t key lookup response, CacheStore.Serves (.ofSettings cfg) H w.cache →
      pipeline.steps = pre ++ step :: rest →
      loopSteps env (executeWithErrorShortCircuit env fuel) pipeline.steps 0 pre (.start input handled) w =
        some (.ok (.inl s), w₁, l₁) → s.skips step = false →
      executeStep env (executeWithErrorShortCircuit env fuel) step (s.stepContext pre.length pipeline.steps) w₁ =
        some (r₁, w₂, a ++ .cache true t (.lookup key) (.looked lookup) :: b) → lookup.hit = some response →
      CacheStore.lastStored (H ++ callsOf (l₁ ++ .entered step s.pipeCtx.state :: a)) key = some response ∧
        ∃ r w' l₃ status, executeWithErrorShortCircuit env (fuel + 1) pipeline input handled w =
            some (r, w', l₁ ++ (.entered step s.pipeCtx.state ::
              (a ++ .cache true t (.lookup key) (.looked lookup) :: b ++ l₃))) ∧ (∀ e ∈ b ++ l₃, e.NoTurn) ∧
          (r = .ok (response.replay status) ∨ r = .error .panic) ∧
          (r = .ok (response.replay status) ↔
            ∀ t' key' saved ttlSecs answer, .cache true t' (.put key' saved ttlSecs) answer ∈ l₃ →
              w.cache.InTime t' saved ttlSecs)) := by
  refine ⟨?_, ?_, ?_⟩
  · intro output w' l h t key saved ttlSecs answer hput
    obtain ⟨rfl, hu⟩ := put_of_returned (execute_calls h) hput
    unfold uncacheable at hu
    obtain ⟨herr, hstatus⟩ := Bool.or_eq_false_iff.mp hu
    refine ⟨rfl, Option.not_isSome_iff_eq_none.mp (by simp [herr]), ?_⟩
    intro status hs
    rw [hs] at hstatus
    simpa using hstatus
  · intro e w' l h
    exact no_put_of_error (execute_calls h)
  · intro cfg H pre step rest s w₁ w₂ l₁ a b r₁ t key lookup response hH hsteps hpre hruns hstep hhit
    have hhit₁ : (s.stepContext pre.length pipeline.steps).pipeCtx.cacheHit = none := by
      cases loopSteps_calls (s := .start input handled) rfl hpre with
      | through _ _ hnone => exact hnone
    have hlooked : (.lookup key, .looked lookup) ∈ ownCalls (a ++ .cache true t (.lookup key) (.looked lookup) :: b) :=
      ownCalls_of_mem (List.mem_append_right _ List.mem_cons_self)
    obtain ⟨status, ctx', rfl⟩ := (executeStep_calls hhit₁ hstep).returns_hit hlooked hhit
    obtain ⟨r, w', l₃, hrun, hquiet, hend⟩ := run_of_hit hsteps hpre hruns hstep
    have hexecute : executeWithErrorShortCircuit env (fuel + 1) pipeline input handled w = some (r, w', _) := hrun
    have hserves : w.cache.Serves (callsOf (l₁ ++ (.entered step s.pipeCtx.state ::
        (a ++ .cache true t (.lookup key) (.looked lookup) :: b ++ l₃)))) w'.cache := serves_execute hexecute
    have hintime : (∀ c ∈ ownCalls l₃, c.2 ≠ .put .panicked) ↔
        ∀ t' key' saved ttlSecs answer, .cache true t' (.put key' saved ttlSecs) answer ∈ l₃ → w.cache.InTime t' saved ttlSecs := by
      have hlater := hserves
      rw [← List.cons_append, ← List.append_assoc] at hlater
      exact puts_inTime_iff hH hlater
    refine ⟨?_, r, w', l₃, status, hrun, ?_, ?_⟩
    · have hsplit : callsOf (l₁ ++ (.entered step s.pipeCtx.state ::
          (a ++ .cache true t (.lookup key) (.looked lookup) :: b ++ l₃))) =
          callsOf (l₁ ++ .entered step s.pipeCtx.state :: a) ++
            { now := t, call := .lookup key, answer := .looked lookup } :: callsOf (b ++ l₃) := by
        rw [List.append_assoc, List.cons_append, ← List.cons_append, ← List.append_assoc, callsOf_append]
        rfl
      rw [hsplit] at hserves
      exact hit_lastStored hH hserves hhit
    · intro e he
      rcases List.mem_append.mp he with he | he
      · exact noTurn_executeStep hstep e (List.mem_append_right _ (List.mem_cons_of_mem _ he))
      · exact noTurn_of_isCache (hquiet e he)
    · rw [← hintime]
      rcases hend with ⟨rfl, hno⟩ | ⟨rfl, c, hc, hpanic⟩
      · exact ⟨Or.inl rfl, fun _ => hno, fun _ => rfl⟩
      · exact ⟨Or.inr rfl, nofun, fun hno => absurd hpanic (hno c hc)⟩

/-- A store on a clock that counts seconds in 63 bits. -/
def clockSettings : CacheSettings := .ofNew 16 60 (fromSecs 9223372036854775808)

/-- A page that was cached. -/
def oldPage : CachedResponse := { body := .string "old", contentType := "text/html", statusCode := none }

/-- A store in which `page` is fresh. -/
def freshWorld : World Unit := .start ((CacheStore.ofSettings clockSettings).putResponse 0 "page" oldPage (some 60)).2 ()

/-- The page is looked up, found fresh, and returned. -/
theorem replay_iff_page : ∃ w' l status, executeWithErrorShortCircuit cacheEnv 1 { steps := [cachePage] } (.object []) none
    freshWorld = some (.ok (oldPage.replay status), w', l) := by
  obtain ⟨-, -, hhit⟩ := replay_iff cacheEnv 0 { steps := [cachePage] } (.object []) none freshWorld
  have hserves : CacheStore.Serves (.ofSettings clockSettings)
      [{ now := 0, call := .put "page" oldPage (some 60), answer := .put .stored }] freshWorld.cache := .cons (.nil _)
  obtain ⟨-, r, w', l₃, status, hrun, -, hr, -⟩ := hhit clockSettings _ [] cachePage [] (.start (.object []) none) freshWorld _ [] [_]
    [_] _ _ "page" (.fresh oldPage) oldPage hserves rfl rfl rfl rfl rfl
  have hok : ∃ output w' l, executeWithErrorShortCircuit cacheEnv 1 { steps := [cachePage] } (.object []) none freshWorld =
      some (.ok output, w', l) := ⟨_, _, _, rfl⟩
  obtain ⟨output, w₁, l₁, hok⟩ := hok
  rcases hr with rfl | rfl
  · exact ⟨w', _, status, hrun⟩
  · rw [hok] at hrun
    cases hrun

/-- Cache forever, in seconds that a `u64` can count and the clock cannot. -/
def cacheForever : PipelineStep := .regular { name := "cache", config := "ttl: 18446744073709551615, keyTemplate: forever" }

/-- The page is found fresh, but the run panics at the save of an earlier cache step. -/
theorem hit_panics : ¬ ReplaysHits cacheEnv 0 { steps := [cacheForever, cachePage] } (.object []) freshWorld := by
  intro h
  obtain ⟨status, w', l, hrun⟩ := h [cacheForever] cachePage [] _ _ _ _ [_] [_] _ _ "page" (.fresh oldPage) oldPage rfl rfl rfl rfl rfl
  have hpanic : (executePipelineInternal cacheEnv 1 { steps := [cacheForever, cachePage] } (.object []) freshWorld).map
      (fun p => failureOf p.1) = some (some .panic) := by decide +kernel
  rw [hrun] at hpanic
  cases hpanic

end WebPipe
