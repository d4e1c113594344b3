import WebPipe.Lemmas.Simulation

/-!
# What a run does not see of its request

Two requests that differ in parts of their contexts only: a pipeline whose tags, joins and middleware do not read these parts runs the
same in both, with the same calls in the same order. Tasks have contexts of their own, so what they run does not count.
-/

namespace WebPipe

variable {σ : Type} {env : ExecutionEnv σ} {run : RunFn σ} {A : RequestContext → RequestContext → Prop}

/-! ## The condition on a pipeline -/

/-- A tag expression reads the same in related contexts. -/
def TagsAgree (env : ExecutionEnv σ) (A : RequestContext → RequestContext → Prop) (e : TagExpr) : Prop :=
  ∀ c c' v, A c c' → checkTagExpr env c v e = checkTagExpr env c' v e

/-- The task under a name is the same in related contexts, which stay related without it. -/
def TakesAgree (A : RequestContext → RequestContext → Prop) (name : String) : Prop :=
  ∀ c c', A c c' → (c.takeTask name).1 = (c'.takeTask name).1 ∧ A (c.takeTask name).2 (c'.takeTask name).2

/-- A middleware does the same in related contexts, and leaves related ones. -/
def MiddlewareAgrees (A : RequestContext → RequestContext → Prop)
    (execute : MiddlewareCall → RequestContext → σ → Except Failure (MiddlewareOutput × Value) × RequestContext × σ) : Prop :=
  ∀ c c' call ext, A c c' → (execute call c ext).1 = (execute call c' ext).1 ∧
    A (execute call c ext).2.1 (execute call c' ext).2.1 ∧ (execute call c ext).2.2 = (execute call c' ext).2.2

/-- A regular step does not see the difference of related contexts. -/
structure StepAgrees (env : ExecutionEnv σ) (A : RequestContext → RequestContext → Prop) (s : RegularStep) : Prop where
  tags : ∀ e, s.condition = some e → TagsAgree env A e
  takes : effectiveName env s = "join" → ∀ names,
    joinTaskNames env (resolvedConfig env s) s.parsedJoinTargets = .ok names → ∀ name ∈ names, TakesAgree A name
  middleware : ∀ behavior execute, env.registry (effectiveName env s) = some (.other behavior execute) →
    MiddlewareAgrees A execute

/-- The steps of a pipeline do not see the difference; what stands in nested pipelines does not count. -/
structure OwnAgrees (env : ExecutionEnv σ) (A : RequestContext → RequestContext → Prop) (p : Pipeline) : Prop where
  regular : ∀ s, .regular s ∈ p.steps → StepAgrees env A s
  dispatch : ∀ branches default location, .dispatch branches default location ∈ p.steps →
    ∀ b ∈ branches, TagsAgree env A b.condition

/-- No pipeline that runs of the pipeline may come to sees the difference. -/
def Tame (env : ExecutionEnv σ) (A : RequestContext → RequestContext → Prop) (p : Pipeline) : Prop :=
  ∀ q, Leads env p q → OwnAgrees env A q

theorem Tame.own {p : Pipeline} (h : Tame env A p) : OwnAgrees env A p := h p .refl

/-- What a tame pipeline starts is tame. -/
theorem Tame.of_starts {p q : Pipeline} (h : Tame env A p) {step : PipelineStep} (hstep : step ∈ p.steps)
    (hq : StartsRun env step q) : Tame env A q :=
  fun x hx => h x (.head ⟨step, hstep, hq⟩ hx)

/-! ## The relation -/

/-- Worlds that agree on everything but the request context, and on that up to a relation. -/
structure SameBut (A : RequestContext → RequestContext → Prop) (w w' : World σ) : Prop where
  cache : w.cache = w'.cache
  clock : w.clock = w'.clock
  others : w.others = w'.others
  ext : w.ext = w'.ext
  reqCtx : A w.reqCtx w'.reqCtx

/-- What the executor writes to related contexts leaves them related, and a debugger is told the same. -/
structure Hides (env : ExecutionEnv σ) (A : RequestContext → RequestContext → Prop) : Prop where
  register : ∀ {c c'}, A c c' → ∀ name task, A (c.register name task) (c'.register name task)
  logCall : ∀ {c c'}, A c c' → ∀ key v, A (c.logCall key v) (c'.logCall key v)
  profiler : ∀ {c c'}, A c c' → ∀ f : Profiler → Profiler,
    A { c with profiler := f c.profiler } { c' with profiler := f c'.profiler }
  cachePolicy : ∀ {c c'}, A c c' → ∀ policy, A { c with cachePolicy := policy } { c' with cachePolicy := policy }
  stepMode : ∀ {c c'}, A c c' → ∀ mode, A { c with debugStepMode := mode } { c' with debugStepMode := mode }
  debugger : env.debugger ≠ none → ∀ {c c'}, A c c' → c.debugThreadId = c'.debugThreadId ∧ c.profiler.stack = c'.profiler.stack

/-- A run is blind to the difference. -/
abbrev Unseen (A : RequestContext → RequestContext → Prop) {α : Type} (x : Exec σ α) : Prop := Prog.Blind (SameBut A) x

/-! ## Runs -/

/-- The run of a pipeline is blind to the difference, whatever its input. -/
def RunUnseen (A : RequestContext → RequestContext → Prop) (run : RunFn σ) (p : Pipeline) : Prop :=
  ∀ input handled, Unseen A (run p input handled)

theorem Hides.stable (h : Hides env A) : Stable (SameBut A : World σ → World σ → Prop) where
  cache hw := hw.cache
  clock hw := hw.clock
  others hw := hw.others
  frame hw _ _ _ := ⟨rfl, rfl, rfl, hw.ext, hw.reqCtx⟩
  logCall hw key v := ⟨hw.cache, hw.clock, hw.others, hw.ext, h.logCall hw.reqCtx key v⟩
  profiler hw f := ⟨hw.cache, hw.clock, hw.others, hw.ext, h.profiler hw.reqCtx f⟩
  cachePolicy hw policy := ⟨hw.cache, hw.clock, hw.others, hw.ext, h.cachePolicy hw.reqCtx policy⟩

/-- A step that does not read what is hidden is the same on both sides. -/
theorem StepAgrees.sim (h : Hides env A) {s : RegularStep} (hs : StepAgrees env A s) :
    StepSim env (SameBut A) (fun _ => True) s where
  tags e he w w' v hw := hs.tags e he w.reqCtx w'.reqCtx v hw.reqCtx
  takes hjoin names hnames name hname w w' hw := by
    obtain ⟨htask, hleft⟩ := hs.takes hjoin names hnames name hname w.reqCtx w'.reqCtx hw.reqCtx
    exact ⟨htask, ⟨hw.cache, hw.clock, hw.others, hw.ext, hleft⟩, fun _ _ => trivial⟩
  middleware behavior execute hr w w' call hw := by
    obtain ⟨hout, hctx, hext⟩ := hs.middleware behavior execute hr w.reqCtx w'.reqCtx call w.ext hw.reqCtx
    rw [← hw.ext]
    exact ⟨hout, hw.cache, hw.clock, hw.others, hext, hctx⟩
  spawns hw name input := ⟨hw.cache, hw.clock, hw.others, hw.ext, h.register hw.reqCtx name _⟩

/-- So are the steps of a pipeline. -/
theorem OwnAgrees.sim (h : Hides env A) {p : Pipeline} (hp : OwnAgrees env A p) : OwnSim env (SameBut A) (fun _ => True) p where
  regular s hs := (hp.regular s hs).sim h
  dispatch branches default location hd b hb w w' v hw := hp.dispatch branches default location hd b hb w.reqCtx w'.reqCtx v hw.reqCtx

/-- A call of a pipeline that does not see the difference does not see it either. -/
theorem unseen_handleRecursivePipeline {args : List String} {config : String} {location : SourceLocation}
    (hrun : ∀ p, resolveNamedPipeline env location (Text.trim config) = some p → RunUnseen A run p) (input : Value) :
    Unseen A (handleRecursivePipeline env run args config location input) :=
  sim_handleRecursivePipeline env.debugger hrun input

/-- A task starts from one state in both worlds: its context is its own. -/
theorem taskSim_self : TaskSim env env run run (SameBut A) fun _ => True := by
  intro name task _ w w' h
  have hsame : ({ w with reqCtx := {} } : World σ) = { w' with reqCtx := {} } := by
    cases w
    cases w'
    obtain ⟨h1, h2, h3, h4, -⟩ := h
    cases h1
    cases h2
    cases h3
    cases h4
    rfl
  unfold runTask Prog.within
  dsimp only
  rw [hsame]
  split
  · exact Or.inl ⟨rfl, rfl⟩
  · exact Or.inr ⟨_, _, _, _, rfl, rfl, rfl, rfl, rfl, rfl, h.reqCtx⟩

/-- A debugger is told the same and leaves the same. -/
theorem Hides.before (h : Hides env A) : BeforeSim env env (SameBut A) := by
  intro step name ctx
  unfold handleDebuggerBefore
  cases hd : env.debugger with
  | none => exact Prog.sim_pure _
  | some dbg =>
    have hdebug : env.debugger ≠ none := by
      rw [hd]
      nofun
    refine Prog.sim_bind (Prog.sim_update ?_) fun r => ?_
    · intro w w' hw
      obtain ⟨hthread, hstack⟩ := h.debugger hdebug hw.reqCtx
      dsimp only
      rw [hthread, hstack, hw.ext]
      exact ⟨rfl, hw.cache, hw.clock, hw.others, rfl, hw.reqCtx⟩
    · split
      · exact Prog.sim_fail _
      · exact Prog.sim_bind (sim_modifyReq fun hw => ⟨hw.cache, hw.clock, hw.others, hw.ext, h.stepMode hw.reqCtx _⟩) fun _ =>
          Prog.sim_pure _

/-- A pipeline that does not see the difference, and comes to none that does, runs the same in both worlds. -/
theorem unseen_execute (h : Hides env A) {p : Pipeline} (hp : Tame env A p) (n : Nat) :
    RunUnseen A (executeWithErrorShortCircuit env n) p := by
  induction n generalizing p with
  | zero => exact fun _ _ => Prog.sim_diverge
  | succ n ih =>
    have hrun : ∀ step ∈ p.steps, ∀ q, StartsRun env step q → RunUnseen A (executeWithErrorShortCircuit env n) q :=
      fun step hstep q hq => ih (hp.of_starts hstep hq)
    exact sim_runPipeline env.debugger h.stable h.before taskSim_self (hp.own.sim h) hrun

end WebPipe
