import WebPipe.Lemmas.Join
import WebPipe.Lemmas.Trace

/-!
# The profiler's stack

A step puts its name on the stack of the profiler when it is entered and takes one off when it ends, and so does the pipeline of a field
of a query, or of a loader. Two exits miss the second half: a step that the debugger refuses, and a field whose pipeline fails.
`stack_balanced_iff` counts the names that a run leaves by them.
-/

namespace WebPipe

/-! ## What a log tells -/

/-- A step is entered. -/
@[simp] def Event.enters : Event → Bool
  | .entered _ _ => true
  | _ => false

/-- A step ends. -/
@[simp] def Event.ends : Event → Bool
  | .settled .. => true
  | _ => false

/-- The run of a resolver leaves its name on the stack: the pipeline of a field failed. A panic, also of a loader, takes the request
down. -/
@[simp] def Event.abandons : Event → Bool
  | .run (.resolver (.field _)) _ _ _ _ (.error _) => true
  | .run (.resolver (.loader _)) _ _ _ _ (.error .panic) => true
  | _ => false

mutual

/-- How often something happens in an event of a run, those of the runs inside it included. A task is a request of its own. -/
@[simp] def Event.times (p : Event → Bool) : Event → Nat
  | .run entry pipeline input handled inner result => (p (.run entry pipeline input handled inner result)).toNat + times p inner
  | e => (p e).toNat

/-- How often something happens in the log of a run. -/
@[simp] def times (p : Event → Bool) : List Event → Nat
  | [] => 0
  | e :: l => e.times p + times p l

end

/-- Times add up. -/
theorem times_append (p : Event → Bool) (a b : List Event) : times p (a ++ b) = times p a + times p b := by
  induction a with
  | nil => simp
  | cons e a ih => rw [List.cons_append, times, times, ih, Nat.add_assoc]

/-- Every step that was entered has ended, and every field's pipeline that was run has returned. -/
structure StepsEnd (l : List Event) : Prop where
  ended : times Event.ends l = times Event.enters l
  returned : times Event.abandons l = 0

/-! ## What a run leaves -/

variable {σ : Type} {env : ExecutionEnv σ} {run : RunFn σ}

/-- A run leaves a name on the stack for every step that it entered and did not end, and for every field that it abandoned. -/
def LeavesNames (w : World σ) (l : List Event) (w' : World σ) : Prop :=
  ∃ left, w'.reqCtx.profiler.stack = w.reqCtx.profiler.stack ++ left ∧
    times Event.ends l + left.length = times Event.enters l + times Event.abandons l ∧ times Event.ends l ≤ times Event.enters l

/-- What leaves the stack alone and logs neither steps nor fields. -/
theorem leavesNames_of_same {w w' : World σ} {l : List Event} (hstack : w'.reqCtx.profiler.stack = w.reqCtx.profiler.stack)
    (hl : ∀ p ∈ [Event.enters, Event.ends, Event.abandons], times p l = 0) : LeavesNames w l w' := by
  simp only [List.forall_mem_cons, List.not_mem_nil, false_implies, implies_true, and_true] at hl
  obtain ⟨henters, hends, habandons⟩ := hl
  refine ⟨[], by rw [hstack, List.append_nil], ?_, ?_⟩
  · rw [henters, hends, habandons, List.length_nil]
  · rw [henters, hends]

/-- The names of two stretches are left in order. -/
theorem LeavesNames.trans {w w₁ w₂ : World σ} {l₁ l₂ : List Event} (h₁ : LeavesNames w l₁ w₁) (h₂ : LeavesNames w₁ l₂ w₂) :
    LeavesNames w (l₁ ++ l₂) w₂ := by
  obtain ⟨left₁, hstack₁, hcount₁, hle₁⟩ := h₁
  obtain ⟨left₂, hstack₂, hcount₂, hle₂⟩ := h₂
  refine ⟨left₁ ++ left₂, by rw [hstack₂, hstack₁, List.append_assoc], ?_, ?_⟩
  · simp only [times_append, List.length_append]
    omega
  · simp only [times_append]
    omega

theorem frames_leavesNames : Frames (LeavesNames (σ := σ)) where
  quiet h := leavesNames_of_same h.stack (by simp)
  trans := LeavesNames.trans

/-- A run in balance is one that leaves no name. -/
theorem LeavesNames.balanced_iff {w w' : World σ} {l : List Event} (h : LeavesNames w l w') :
    w'.reqCtx.profiler.stack = w.reqCtx.profiler.stack ↔ StepsEnd l := by
  obtain ⟨left, hstack, hcount, hle⟩ := h
  rw [hstack, List.append_right_eq_self]
  constructor
  · rintro rfl
    rw [List.length_nil] at hcount
    exact ⟨by omega, by omega⟩
  · rintro ⟨hended, hreturned⟩
    exact List.length_eq_zero_iff.mp (by omega)

/-- A name that is put on the stack before a stretch and taken off after it. -/
theorem LeavesNames.around {w w₁ w₂ w' : World σ} {l : List Event} {name : String} (h : LeavesNames w₁ l w₂)
    (hpush : w₁.reqCtx.profiler.stack = w.reqCtx.profiler.stack ++ [name])
    (hpop : w'.reqCtx.profiler.stack = w₂.reqCtx.profiler.stack.dropLast) : LeavesNames w l w' := by
  obtain ⟨left, hstack, hcount, hle⟩ := h
  refine ⟨(name :: left).dropLast, ?_, ?_, hle⟩
  · rw [hpop, hstack, hpush, List.append_assoc, List.singleton_append, List.dropLast_append_of_ne_nil (List.cons_ne_nil _ _)]
  · rw [List.length_dropLast, List.length_cons, Nat.add_sub_cancel]
    exact hcount

/-- A sample takes the last name off the stack. -/
theorem recordSample_pop_stack (p : Profiler) : p.recordSample.pop.stack = p.stack.dropLast := by
  unfold Profiler.recordSample Profiler.pop
  split <;> rfl

/-! ## Resolvers -/

/-- A nested run leaves what it leaves. -/
theorem leavesNames_run {entry : Entry} {pipeline : Pipeline} {input : Value} {handled : Option String} {inner : List Event}
    {result : Except Failure PipelineOutput} {w w' : World σ}
    (hno : (Event.run entry pipeline input handled inner result).abandons = false) (h : LeavesNames w inner w') :
    LeavesNames w [.run entry pipeline input handled inner result] w' := by
  obtain ⟨left, hstack, hcount, hle⟩ := h
  refine ⟨left, hstack, ?_, ?_⟩
  · simp only [times, Event.times, hno, Event.ends, Event.enters, Bool.toNat_false, Nat.zero_add, Nat.add_zero]
    exact hcount
  · simp only [times, Event.times, Event.ends, Event.enters, Bool.toNat_false, Nat.zero_add, Nat.add_zero]
    exact hle

/-- The name of an abandoned field stays below what its run leaves. -/
theorem leavesNames_abandoned {entry : Entry} {pipeline : Pipeline} {input : Value} {handled : Option String} {inner : List Event}
    {result : Except Failure PipelineOutput} {w w₁ w' : World σ} {name : String}
    (hyes : (Event.run entry pipeline input handled inner result).abandons = true)
    (hpush : w₁.reqCtx.profiler.stack = w.reqCtx.profiler.stack ++ [name]) (h : LeavesNames w₁ inner w') :
    LeavesNames w [.run entry pipeline input handled inner result] w' := by
  obtain ⟨left, hstack, hcount, hle⟩ := h
  refine ⟨name :: left, by rw [hstack, hpush, List.append_assoc, List.singleton_append], ?_, ?_⟩
  · simp only [times, Event.times, hyes, Event.ends, Event.enters, Bool.toNat_false, Bool.toNat_true, Nat.zero_add, Nat.add_zero,
      List.length_cons]
    omega
  · simp only [times, Event.times, Event.ends, Event.enters, Bool.toNat_false, Nat.zero_add, Nat.add_zero]
    exact hle

/-- The run of a resolver: its start, the run of its pipeline, and its end where there was no panic. -/
theorem runResolver_eq_some {record : ResolverRecord} {pipeline : Pipeline} {input : Value} {w w' : World σ}
    {r : Except Failure (Except WebPipeError Value)} {l : List Event}
    (h : runResolver run record pipeline input w = some (r, w', l)) :
    ∃ w₁ w₂ result inner, startResolver record input w = some (.ok (), w₁, []) ∧ run pipeline input none w₁ = some (result, w₂, inner) ∧
      l = [.run (.resolver record) pipeline input none inner result] ∧
      match result with
      | .ok output => endResolver record (.ok output) w₂ = some (.ok (), w', [])
      | .error (.err e) => endResolver record (.error e) w₂ = some (.ok (), w', [])
      | .error .panic => w' = w₂ := by
  have hstart : ∃ w₁, startResolver record input w = some (.ok (), w₁, []) := by
    cases record with
    | _ => exact ⟨_, rfl⟩
  have hend : ∀ (result : Except WebPipeError PipelineOutput) (w : World σ), ∃ w₁, endResolver record result w = some (.ok (), w₁, []) := by
    intro result w
    cases record with
    | field key => cases result with
      | _ => exact ⟨_, rfl⟩
    | _ => exact ⟨_, rfl⟩
  obtain ⟨w₁, hw₁⟩ := hstart
  unfold runResolver at h
  rw [Prog.bind_of_quiet hw₁] at h
  obtain ⟨_, ha, -⟩ | ⟨result, w₂, l₁, l₂, ha, hrest, rfl⟩ := Prog.bind_eq_some h
  · obtain ⟨_, he, -⟩ := Prog.attempt_eq_some ha
    cases he
  obtain ⟨result', he, hnested⟩ := Prog.attempt_eq_some ha
  obtain rfl : result = result' := Except.ok.inj he
  obtain ⟨inner, hrun, rfl⟩ := nested_eq_some hnested
  rcases result with (e | _) | output
  · obtain ⟨w₃, hw₃⟩ := hend (.error e) w₂
    dsimp only at hrest
    rw [Prog.bind_of_quiet hw₃] at hrest
    cases hrest
    exact ⟨w₁, w₂, _, inner, hw₁, hrun, rfl, hw₃⟩
  · cases hrest
    exact ⟨w₁, _, _, inner, hw₁, hrun, rfl, rfl⟩
  · obtain ⟨w₃, hw₃⟩ := hend (.ok output) w₂
    dsimp only at hrest
    rw [Prog.bind_of_quiet hw₃] at hrest
    cases hrest
    exact ⟨w₁, w₂, _, inner, hw₁, hrun, rfl, hw₃⟩

/-- A resolver leaves what its run leaves, and its name where it is abandoned. -/
theorem leavesNames_runResolver (hrun : ∀ pipeline input handled, Prog.Follows LeavesNames (run pipeline input handled))
    (record : ResolverRecord) (pipeline : Pipeline) (input : Value) :
    Prog.Follows LeavesNames (runResolver run record pipeline input) := by
  intro w r w' l h
  obtain ⟨w₁, w₂, result, inner, hstart, hinner, rfl, hend⟩ := runResolver_eq_some h
  have hleaves := hrun pipeline input none w₁ result w₂ inner hinner
  cases record with
  | field key =>
    have hpush : w₁.reqCtx.profiler.stack = w.reqCtx.profiler.stack ++ [key] := by
      cases hstart
      rfl
    rcases result with (e | _) | output
    · cases hend
      exact leavesNames_abandoned rfl hpush hleaves
    · cases hend
      exact leavesNames_abandoned rfl hpush hleaves
    · refine leavesNames_run rfl (hleaves.around hpush ?_)
      cases hend
      exact recordSample_pop_stack _
  | part =>
    cases hstart
    refine leavesNames_run rfl ?_
    rcases result with (e | _) | output
    · cases hend
      exact hleaves
    · cases hend
      exact hleaves
    · cases hend
      exact hleaves
  | loader name =>
    have hpush : w₁.reqCtx.profiler.stack = w.reqCtx.profiler.stack ++ [name] := by
      cases hstart
      rfl
    rcases result with (e | _) | output
    · refine leavesNames_run rfl (hleaves.around hpush ?_)
      cases hend
      exact recordSample_pop_stack _
    · cases hend
      exact leavesNames_abandoned rfl hpush hleaves
    · refine leavesNames_run rfl (hleaves.around hpush ?_)
      cases hend
      exact recordSample_pop_stack _

/-- A query leaves what its resolvers leave. -/
theorem leavesNames_perform (hrun : ∀ pipeline input handled, Prog.Follows LeavesNames (run pipeline input handled))
    {resolvers : List Pipeline} (resolution : Resolution resolvers) : Prog.Follows LeavesNames (resolution.perform run) := by
  have hR : Prog.Chain (LeavesNames (σ := σ)) := frames_leavesNames.chain
  induction resolution with
  | done result => exact Prog.follows_ofExcept hR _
  | mocked key input next ih =>
    intro w r w' l h
    have hnext : next.perform run { w with reqCtx := { w.reqCtx.logCall key input with
        profiler := (w.reqCtx.profiler.push key).recordSample.pop } } = some (r, w', l) := by
      unfold Resolution.perform startResolver Exec.modifyReq at h
      rw [Prog.modify_bind, Prog.modify_bind] at h
      exact h
    have hsame : LeavesNames w [] { w with reqCtx := { w.reqCtx.logCall key input with
        profiler := (w.reqCtx.profiler.push key).recordSample.pop } } := by
      refine leavesNames_of_same ?_ (by simp)
      dsimp only
      rw [recordSample_pop_stack, Profiler.push, List.dropLast_concat]
    exact hsame.trans (ih _ _ _ _ hnext)
  | resolve record pipeline h input next ih =>
    exact Prog.follows_bind hR (leavesNames_runResolver hrun record pipeline input) fun result => ih result

/-! ## Steps -/

/-- Middleware other than `graphql` leaves the profiler's stack alone. -/
def KeepsStack (env : ExecutionEnv σ) : Prop :=
  ∀ name behavior execute, env.registry name = some (.other behavior execute) → ∀ call ctx ext,
    (execute call ctx ext).2.1.profiler.stack = ctx.profiler.stack

theorem coversCache_leavesNames : CoversCache (LeavesNames (σ := σ)) := fun _ _ _ _ =>
  leavesNames_of_same rfl (by simp)

/-- A call of a middleware leaves what the resolvers of a query leave. -/
theorem leavesNames_invoke (hkeeps : KeepsStack env)
    (hrun : ∀ pipeline input handled, Prog.Follows LeavesNames (run pipeline input handled)) (name : String) (args : List String)
    (config : String) (c : PipelineContext) (target : Option String) :
    Prog.Follows LeavesNames (invoke env run name args config c target) := by
  have hR : Prog.Chain (LeavesNames (σ := σ)) := frames_leavesNames.chain
  have hcall : ∀ name call (w : World σ), LeavesNames w [.invoked name call] w := fun _ _ _ =>
    leavesNames_of_same rfl (by simp)
  unfold invoke
  dsimp only
  split
  · exact Prog.follows_fail hR _
  · exact Prog.follows_bind hR (Prog.follows_emit (hcall _ _)) fun _ =>
      Prog.follows_bind hR (follows_cacheMiddleware frames_leavesNames coversCache_leavesNames _ _) fun _ => Prog.follows_pure hR _
  · exact Prog.follows_bind hR (Prog.follows_emit (hcall _ _)) fun _ =>
      Prog.follows_bind hR (leavesNames_perform hrun _) fun _ => Prog.follows_pure hR _
  · next behavior execute hname =>
    exact Prog.follows_bind hR (Prog.follows_emit (hcall _ _)) fun _ =>
      Prog.follows_bind hR (Prog.follows_update fun w => leavesNames_of_same (hkeeps _ _ _ hname _ _ _) (by simp)) fun _ =>
      Prog.follows_bind hR (Prog.follows_ofExcept hR _) fun _ => Prog.follows_pure hR _

/-- A task has a request of its own, and leaves nothing in the one that awaits it. -/
theorem leavesNames_runTask (name : String) (task : AsyncTask) : Prog.Follows LeavesNames (runTask env run name task) := by
  intro w r w' l h
  have htasks : ∀ e ∈ l, ∃ name inner, e = .task name inner :=
    follows_runTask (passes_emits fun e => ∃ name inner, e = .task name inner) (fun _ _ _ _ _ _ _ => by simp) name task w r w' l h
  obtain ⟨_, -, hctx⟩ := runTask_eq_some h
  refine leavesNames_of_same (by rw [hctx]) ?_
  clear h
  induction l with
  | nil => simp
  | cons e l ih =>
    obtain ⟨⟨name, inner, rfl⟩, hrest⟩ := List.forall_mem_cons.mp htasks
    intro p hp
    rw [times, ih hrest p hp, Nat.add_zero]
    revert p
    simp

/-- A join leaves nothing. -/
theorem leavesNames_join (config : String) (parsedTargets : Option (List String)) (input : Value) :
    Prog.Follows LeavesNames (handleJoin env run config parsedTargets input) := by
  have hR : Prog.Chain (LeavesNames (σ := σ)) := frames_leavesNames.chain
  have hquiet : ∀ {w w' : World σ}, w'.reqCtx.profiler.stack = w.reqCtx.profiler.stack → LeavesNames w [] w' := fun h =>
    leavesNames_of_same h (by simp)
  have hjoin : ∀ names results, Prog.Follows LeavesNames (joinTasks env run names results) := by
    intro names
    induction names with
    | nil => exact fun _ => Prog.follows_pure hR _
    | cons name names ih =>
      intro results
      refine Prog.follows_bind hR (Prog.follows_update fun _ => hquiet rfl) fun task => ?_
      cases task with
      | none => exact ih _
      | some task =>
        refine Prog.follows_bind hR (leavesNames_runTask name task) fun r => ?_
        rcases r with (e | _) | ⟨value, profiler⟩
        · exact ih _
        · exact ih _
        · exact Prog.follows_bind hR (Prog.follows_modify fun _ => hquiet rfl) fun _ => ih _
  refine Prog.follows_bind hR (Prog.follows_ofExcept hR _) fun _ => Prog.follows_bind hR (hjoin _ _) fun _ =>
    Prog.follows_bind hR (Prog.follows_emit fun _ => ?_) fun _ => Prog.follows_pure hR _
  exact leavesNames_of_same rfl (by simp)

/-- The core of a step leaves what its runs leave. -/
theorem coversCore_leavesNames (hkeeps : KeepsStack env)
    (hrun : ∀ pipeline input handled, Prog.Follows LeavesNames (run pipeline input handled)) : CoversCore env run LeavesNames where
  toFrames := frames_leavesNames
  runs entry pipeline input inner result w w' hno h := by
    refine leavesNames_run ?_ (hrun _ _ _ _ _ _ _ h)
    cases entry with
    | resolver record => cases hno
    | _ => rfl
  joins := leavesNames_join
  spawns _ _ _ _ _ _ := by
    refine Prog.follows_bind frames_leavesNames.chain (Prog.follows_emit fun _ => ?_) fun _ => Prog.follows_modify fun _ => ?_
    · exact leavesNames_of_same rfl (by simp)
    · exact leavesNames_of_same rfl (by simp)
  invokes := leavesNames_invoke hkeeps hrun

/-- A step that is entered leaves its name where the debugger refuses it, and otherwise what its handler leaves. -/
theorem leavesNames_step (hkeeps : KeepsStack env)
    (hrun : ∀ pipeline input handled, Prog.Follows LeavesNames (run pipeline input handled)) {step : PipelineStep} {ctx : StepContext}
    {state : Value} {w w' : World σ} {r : Except Failure (StepOutcome × StepContext)} {l : List Event}
    (h : executeStep env run step ctx w = some (r, w', l)) : LeavesNames w (.entered step state :: l) w' := by
  unfold executeStep at h
  rw [Exec.modifyReq, Prog.modify_bind] at h
  obtain ⟨_, hd, rfl⟩ | ⟨ctx₁, w₁, l₁, l₂, hd, hrest, rfl⟩ := Prog.bind_eq_some h
  · obtain ⟨rfl, -, hprofiler, -⟩ := handleDebuggerBefore_eq_some hd
    refine ⟨[determineStepName step], ?_, ?_, ?_⟩
    · rw [hprofiler]
      rfl
    · simp
    · simp
  · obtain ⟨rfl, -, hprofiler, -⟩ := handleDebuggerBefore_eq_some hd
    obtain ⟨_, ha, -⟩ | ⟨raw, w₂, l₃, l₄, ha, hend, rfl⟩ := Prog.bind_eq_some hrest
    · obtain ⟨_, he, -⟩ := Prog.attempt_eq_some ha
      cases he
    obtain ⟨raw', he, hdispatch⟩ := Prog.attempt_eq_some ha
    obtain rfl : raw = raw' := Except.ok.inj he
    obtain ⟨l₅, hlast, rfl⟩ := Prog.emit_bind_eq_some hend
    rw [Exec.modifyReq, Prog.modify_bind] at hlast
    obtain ⟨-, rfl, rfl⟩ := Prog.ofExcept_eq_some hlast
    have hhandler := follows_dispatchCore (coversCore_leavesNames hkeeps hrun) _ _ _ _ _ _ hdispatch
    have hpush : w₁.reqCtx.profiler.stack = w.reqCtx.profiler.stack ++ [determineStepName step] := by
      rw [hprofiler]
      rfl
    have hstep : LeavesNames w l₃ { w₂ with reqCtx := { w₂.reqCtx with profiler := w₂.reqCtx.profiler.recordSample.pop } } :=
      hhandler.around hpush (recordSample_pop_stack _)
    obtain ⟨left, hstack, hcount, hle⟩ := hstep
    refine ⟨left, hstack, ?_, ?_⟩
    · simp only [List.nil_append, times, times_append, Event.times, Event.enters, Event.ends, Event.abandons, Bool.toNat_true,
        Bool.toNat_false]
      omega
    · simp only [List.nil_append, times, times_append, Event.times, Event.enters, Event.ends, Bool.toNat_true, Bool.toNat_false]
      omega

/-! ## Runs -/

/-- One turn of the loop leaves what its step leaves. -/
theorem leavesNames_iterate (hkeeps : KeepsStack env)
    (hrun : ∀ pipeline input handled, Prog.Follows LeavesNames (run pipeline input handled)) (steps : List PipelineStep) (idx : Nat)
    (step : PipelineStep) (s : LoopState) : Prog.Follows LeavesNames (iterate env run steps idx step s) := by
  have hR : Prog.Chain (LeavesNames (σ := σ)) := frames_leavesNames.chain
  unfold iterate
  split
  · refine Prog.follows_bind hR (Prog.follows_emit fun _ => ?_) fun _ => Prog.follows_pure hR _
    exact leavesNames_of_same rfl (by simp)
  · intro w r w' l h
    obtain ⟨l', hturn, rfl⟩ := Prog.emit_bind_eq_some h
    rcases Prog.bind_eq_some hturn with ⟨_, hstep, -⟩ | ⟨⟨outcome, ctx⟩, w₁, l₁, l₂, hstep, hrest, rfl⟩
    · exact leavesNames_step hkeeps hrun hstep
    · refine LeavesNames.trans (leavesNames_step hkeeps hrun hstep) ?_
      cases outcome with
      | «continue» =>
        cases hrest
        exact leavesNames_of_same rfl (by simp)
      | ret output =>
        have hsaves : Prog.Follows LeavesNames (do
            runPendingCacheSaves ctx.pipeCtx.pendingCacheSaves output
            pure (.inr output) : Exec σ (LoopState ⊕ PipelineOutput)) :=
          Prog.follows_bind hR (follows_runPendingCacheSaves frames_leavesNames coversCache_leavesNames _ _) fun _ =>
            Prog.follows_pure hR _
        exact hsaves _ _ _ _ hrest

theorem coversLoop_leavesNames (hkeeps : KeepsStack env)
    (hrun : ∀ pipeline input handled, Prog.Follows LeavesNames (run pipeline input handled)) : CoversLoop env run LeavesNames where
  toFrames := frames_leavesNames
  turns := leavesNames_iterate hkeeps hrun
  cache := coversCache_leavesNames

/-- Every run of the executor leaves the names of the steps that did not end and of the fields that failed: induction on the depth of
calls. -/
theorem leavesNames_execute (hkeeps : KeepsStack env) (n : Nat) (pipeline : Pipeline) (input : Value) (handled : Option String) :
    Prog.Follows LeavesNames (executeWithErrorShortCircuit env n pipeline input handled) := by
  induction n generalizing pipeline input handled with
  | zero =>
    intro w r w' l h
    cases h
  | succ n ih => exact follows_runPipeline (coversLoop_leavesNames hkeeps ih) pipeline input handled

/-! ## The stack in balance -/

/-- A run that returns leaves the stack as it was exactly when every step that it entered has ended, so that the debugger refused none, and
no pipeline of a field has failed, in the runs inside it as well; and so does every part of the loop of a run, so that each step starts on
the stack that its run started on. -/
theorem stack_balanced_iff (hkeeps : KeepsStack env) (n : Nat) :
    (∀ pipeline input handled w (r : Except WebPipeError PipelineOutput) w' l,
      executeWithErrorShortCircuit env n pipeline input handled w = some (r.mapError .err, w', l) →
        (w'.reqCtx.profiler.stack = w.reqCtx.profiler.stack ↔ StepsEnd l)) ∧
    ∀ steps idx before s w s' w' l, loopSteps env (executeWithErrorShortCircuit env n) steps idx before s w = some (.ok (.inl s'), w', l) →
      (w'.reqCtx.profiler.stack = w.reqCtx.profiler.stack ↔ StepsEnd l) := by
  refine ⟨fun pipeline input handled w r w' l h => ?_, fun steps idx before s w s' w' l h => ?_⟩
  · exact (leavesNames_execute hkeeps n pipeline input handled w _ w' l h).balanced_iff
  · have hloop := coversLoop_leavesNames hkeeps (leavesNames_execute hkeeps n)
    exact (follows_loopSteps hloop steps idx before s w _ w' l h).balanced_iff

/-- The pipeline of a field calls a pipeline. -/
def usersResolver (name : String) : Pipeline := { steps := [.regular { name := "pipeline", config := name }] }

/-- Queries of one field; the pipeline `users` is there, and the debugger, where there is one, refuses every step. -/
def usersEnv (resolver : Pipeline) (debugger : Option (DebuggerHook Unit)) : ExecutionEnv Unit where
  registry name :=
    if name = "graphql" then some (.graphql [resolver] fun call =>
      .resolve (.field "Query.users") resolver (List.mem_singleton_self _)
        (.object [("context", call.state), ("args", .object [])]) fun result =>
        .done (.ok ({}, .object [("data", .object [("users", result.toOption.getD .null)])])))
    else none
  namedPipelines moduleId name := if moduleId = none ∧ name = "users" then some { steps := [] } else none
  debugger := debugger

/-- A debugger that refuses every step. -/
def refusingHook : DebuggerHook Unit where
  allocateThreadId _ := (1, ())
  beforeStep _ _ _ _ _ _ := (.error "Debugger disconnected", ())

/-- A step with a query. -/
def usersQuery : Pipeline := { steps := [.regular { name := "graphql", config := "{ users }" }] }

/-- A request on an empty store. -/
def profiledWorld : World Unit := World.start (.ofSettings (.ofNew 16 60 (fromSecs 100000))) ()

theorem keepsStack_usersEnv (resolver : Pipeline) (debugger : Option (DebuggerHook Unit)) : KeepsStack (usersEnv resolver debugger) := by
  intro name behavior execute hname
  unfold usersEnv at hname
  dsimp only at hname
  split_ifs at hname
  cases hname

/-- A query whose field has a pipeline leaves the stack as it was. -/
theorem stack_balanced_iff_users : ∃ r w' l,
    executeWithErrorShortCircuit (usersEnv (usersResolver "users") none) 3 usersQuery (.object []) none profiledWorld =
      some (Except.mapError .err r, w', l) ∧
    (w'.reqCtx.profiler.stack = profiledWorld.reqCtx.profiler.stack ↔ StepsEnd l) ∧ StepsEnd l := by
  have hreturns : (executeWithErrorShortCircuit (usersEnv (usersResolver "users") none) 3 usersQuery (.object []) none
      profiledWorld).map (fun p => (p.1.isOk, p.2.1.reqCtx.profiler.stack)) = some (true, []) := by decide +kernel
  obtain ⟨⟨r, w', l⟩, hrun, hp⟩ := Option.map_eq_some_iff.mp hreturns
  cases r with
  | error e => cases hp
  | ok output =>
    have hiff := (stack_balanced_iff (keepsStack_usersEnv (usersResolver "users") none) 3).1 usersQuery (.object []) none profiledWorld
      (.ok output) w' l hrun
    exact ⟨.ok output, w', l, hrun, hiff, hiff.mp (congrArg Prod.snd hp)⟩

/-- A field whose pipeline is missing leaves its query on the stack of a run that returns a value, and a step that the debugger refuses
leaves its name on that of a run that returns an error. -/
theorem stack_keeps_names : profiledWorld.reqCtx.profiler.stack = [] ∧
    (∃ output w' l, executePipelineInternal (usersEnv (usersResolver "missing") none) 3 usersQuery (.object []) profiledWorld =
      some (.ok output, w', l) ∧ w'.reqCtx.profiler.stack = ["graphql"]) ∧
    ∃ e w' l, executePipelineInternal (usersEnv (usersResolver "users") (some refusingHook)) 3 usersQuery (.object []) profiledWorld =
      some (.error (.err e), w', l) ∧ w'.reqCtx.profiler.stack = ["graphql"] := by
  refine ⟨rfl, ?_, ?_⟩
  · have hstack : (executePipelineInternal (usersEnv (usersResolver "missing") none) 3 usersQuery (.object []) profiledWorld).map
        (fun p => (p.1.isOk, p.2.1.reqCtx.profiler.stack)) = some (true, ["graphql"]) := by decide +kernel
    obtain ⟨⟨r, w', l⟩, hrun, hp⟩ := Option.map_eq_some_iff.mp hstack
    cases r with
    | error e => cases hp
    | ok output => exact ⟨output, w', l, hrun, congrArg Prod.snd hp⟩
  · have hstack : (executePipelineInternal (usersEnv (usersResolver "users") (some refusingHook)) 3 usersQuery (.object [])
        profiledWorld).map (fun p => (p.1.map fun _ => (), p.2.1.reqCtx.profiler.stack)) =
          some (.error (.err (.plain .debuggerError "Debugger disconnected")), ["graphql"]) := by decide +kernel
    obtain ⟨⟨r, w', l⟩, hrun, hp⟩ := Option.map_eq_some_iff.mp hstack
    obtain ⟨hr, hw'⟩ := Prod.mk.inj hp
    cases r with
    | error f =>
      obtain rfl := Except.error.inj hr
      exact ⟨_, w', l, hrun, hw'⟩
    | ok output => cases hr

end WebPipe
