import WebPipe.Debugger.Stepping
import WebPipe.Lemmas.Trace

/-!
# What the debugger sees of a run

Every step that starts is one call of the hook for the thread of the request, one deeper than the stack before it, and the stepping mode of
a thread is what its last answer made it (`Seen`). Tasks have threads of their own.
-/

namespace WebPipe

open Brackets

variable {τ : Type}

/-! ## Modes -/

/-- The stepping mode that an answer gives a thread paused at a depth. -/
def StepAction.mode (depth : Nat) : StepAction → Option SteppingMode
  | .continue => none
  | .stepOver => some (.stepOver depth)
  | .stepIn => some .stepInto
  | .stepOut => some (.stepOut depth)

/-- The mode of a thread after a call for it. -/
def HookEntry.modeAfter (e : HookEntry) (mode : Option SteppingMode) : Option SteppingMode :=
  match e.action with
  | some action => action.mode e.depth
  | none => mode

/-- A call pauses at a breakpoint, and where the mode of the thread asks for it. -/
def HookEntry.Decided (e : HookEntry) (mode : Option SteppingMode) : Prop :=
  e.action.isSome = (e.atBreakpoint || mode.any fun m => m.pausesAt e.depth)

/-- Calls for a thread, each decided by the mode that the last pause left. -/
inductive Decides : Option SteppingMode → List HookEntry → Option SteppingMode → Prop
  | nil (mode : Option SteppingMode) : Decides mode [] mode
  | cons {mode mode' : Option SteppingMode} {e : HookEntry} {calls : List HookEntry} (h : e.Decided mode)
      (hcalls : Decides (e.modeAfter mode) calls mode') : Decides mode (e :: calls) mode'

/-- Two sequences of pauses decide one after the other. -/
theorem Decides.append {mode mode' mode'' : Option SteppingMode} {calls calls' : List HookEntry} (h : Decides mode calls mode')
    (h' : Decides mode' calls' mode'') : Decides mode (calls ++ calls') mode'' := by
  induction h with
  | nil => exact h'
  | cons he _ ih => exact .cons he (ih h')

namespace DapServer

/-- The stepping mode of a thread. -/
def modeOf (server : DapServer) (threadId : Nat) : Option SteppingMode := server.steppingThreads.lookup threadId

/-- A thread pauses where its mode does. -/
theorem shouldPauseStep_eq (server : DapServer) (threadId depth : Nat) :
    server.shouldPauseStep threadId depth = (server.modeOf threadId).any fun m => m.pausesAt depth := by
  unfold shouldPauseStep modeOf
  cases server.steppingThreads.lookup threadId <;> rfl

/-- A pause leaves the mode of its answer to the thread, and the other threads and the breakpoints alone. -/
theorem modeOf_pause (server : DapServer) (threadId : Nat) (state : Value) (stack : List String) (action : StepAction) (u : Nat) :
    (server.pause threadId state stack action).2.modeOf u =
      if u = threadId then action.mode stack.length else server.modeOf u := by
  unfold modeOf pause answer
  by_cases hu : u = threadId
  · subst hu
    cases action <;> simp [resume, setStepping, paused, currentDepth, StepAction.mode, AList.lookup_insert]
  · cases action <;> simp [resume, setStepping, paused, currentDepth, hu, AList.lookup_insert_ne, AList.lookup_erase_ne]

/-- A pause numbers no thread. -/
theorem nextThreadId_pause (server : DapServer) (threadId : Nat) (state : Value) (stack : List String) (action : StepAction) :
    (server.pause threadId state stack action).2.nextThreadId = server.nextThreadId := by
  cases action <;> rfl

end DapServer

/-! ## One call -/

/-- What a call records. -/
def DapClient.entry (dap : DapClient) (threadId : Nat) (name : String) (location : SourceLocation) (stack : List String) : HookEntry :=
  { threadId := threadId, stepName := name, location := location, depth := stack.length,
    atBreakpoint := dap.server.atBreakpoint location,
    action := if dap.server.pauses threadId location stack then some (dap.answers 0) else none }

/-- A call of the hook succeeds and is recorded; it is decided by the mode of its thread, and changes that mode only. -/
theorem beforeStep_recording (threadId : Nat) (name : String) (location : SourceLocation) (state : Value) (stack : List String)
    (ext : (τ × List HookEntry) × DapClient) :
    ∃ mode state' dap,
      recordingHook.beforeStep threadId name location state stack ext =
        (.ok (mode, state'), (ext.1.1, ext.1.2 ++ [ext.2.entry threadId name location stack]), dap) ∧
      dap.server.nextThreadId = ext.2.server.nextThreadId ∧
      (ext.2.entry threadId name location stack).Decided (ext.2.server.modeOf threadId) ∧
      ∀ u, dap.server.modeOf u =
        if u = threadId then (ext.2.entry threadId name location stack).modeAfter (ext.2.server.modeOf threadId)
        else ext.2.server.modeOf u := by
  have hpauses : ext.2.server.pauses threadId location stack =
      (ext.2.server.atBreakpoint location || (ext.2.server.modeOf threadId).any fun m => m.pausesAt stack.length) := by
    rw [DapServer.pauses, DapServer.shouldPauseStep_eq]
  by_cases hpause : ext.2.server.pauses threadId location stack = true
  · let command := (ext.2.server.pause threadId state stack (ext.2.answers 0)).1
    refine ⟨command.action.stepMode, command.state.getD state,
      { server := (ext.2.server.pause threadId state stack (ext.2.answers 0)).2, answers := fun n => ext.2.answers (n + 1) }, ?_,
      ext.2.server.nextThreadId_pause threadId state stack (ext.2.answers 0), ?_, fun u => ?_⟩
    · simp only [recordingHook, dapDebuggerHook, hpause, if_true, DapClient.entry]
      rfl
    · simp [HookEntry.Decided, DapClient.entry, hpause, ← hpauses]
    · rw [DapServer.modeOf_pause]
      simp [HookEntry.modeAfter, DapClient.entry, hpause]
  · rw [Bool.not_eq_true] at hpause
    refine ⟨none, state, ext.2, ?_, rfl, ?_, fun u => ?_⟩
    · simp [recordingHook, dapDebuggerHook, hpause, DapClient.entry]
    · simp [HookEntry.Decided, DapClient.entry, hpause, ← hpauses]
    · simp only [HookEntry.modeAfter, DapClient.entry, hpause]
      split
      · next hu => rw [hu]; rfl
      · rfl

/-! ## What is seen of a run -/

theorem invokedNames_append (l l' : List Event) : invokedNames (l ++ l') = invokedNames l ++ invokedNames l' := by
  induction l with
  | nil => rfl
  | cons e l ih => rw [List.cons_append, invokedNames, invokedNames, ih, List.append_assoc]

/-- Two logs without graphql make one. -/
theorem noGraphql_append {l l' : List Event} : NoGraphql (l ++ l') ↔ NoGraphql l ∧ NoGraphql l' := by
  simp [NoGraphql, invokedNames_append]

theorem marks_append (l l' : List Event) : marks (l ++ l') = marks l ++ marks l' := by
  induction l with
  | nil => rfl
  | cons e l ih => rw [List.cons_append, marks, marks, ih, List.append_assoc]

namespace World

/-- The thread of the request. -/
def threadId {σ : Type} (w : World σ) : Nat := w.reqCtx.debugThreadId.getD 0

/-- The calls of the hook so far. -/
def calls (w : World ((τ × List HookEntry) × DapClient)) : List HookEntry := w.ext.1.2

end World

/-- How a call for a step is recorded. -/
def shownStep (x : PipelineStep × Nat) : String × SourceLocation × Nat := (determineStepName x.1, x.1.location, x.2)

/-- How a call is recorded. -/
def HookEntry.shown (e : HookEntry) : String × SourceLocation × Nat := (e.stepName, e.location, e.depth)

/-- The request is where it was, the steps that started have finished, and the calls of the hook since are those for these steps, and calls
for threads that came later. -/
structure Seen (w : World ((τ × List HookEntry) × DapClient)) (l : List Event) (w' : World ((τ × List HookEntry) × DapClient)) : Prop where
  thread : w'.reqCtx.debugThreadId = w.reqCtx.debugThreadId
  stack : w'.reqCtx.profiler.stack = w.reqCtx.profiler.stack
  next : w.ext.2.server.nextThreadId ≤ w'.ext.2.server.nextThreadId
  balanced : Balanced (marks l)
  calls : ∃ new, w'.calls = w.calls ++ new ∧ (∀ e ∈ new, e.threadId = w.threadId ∨ w.ext.2.server.nextThreadId ≤ e.threadId) ∧
    (entriesOf w.threadId new).map HookEntry.shown = (openings w.reqCtx.profiler.stack.length (marks l)).map shownStep ∧
    ∀ u, Decides (w.ext.2.server.modeOf u) (entriesOf u new) (w'.ext.2.server.modeOf u)

/-- What is seen of a run without `graphql`, by a thread that the server has given out. -/
def Watched (w : World ((τ × List HookEntry) × DapClient)) (l : List Event) (w' : World ((τ × List HookEntry) × DapClient)) : Prop :=
  NoGraphql l → w.threadId < w.ext.2.server.nextThreadId → Seen w l w'

/-- What no hook sees is watched. -/
theorem watched_unseen {w w' : World ((τ × List HookEntry) × DapClient)} {l : List Event} (hmarks : marks l = [])
    (hcalls : w'.ext.1.2 = w.ext.1.2) (hdap : w'.ext.2 = w.ext.2) (hstack : w'.reqCtx.profiler.stack = w.reqCtx.profiler.stack)
    (hthread : w'.reqCtx.debugThreadId = w.reqCtx.debugThreadId) : Watched w l w' := by
  intro _ _
  refine ⟨hthread, hstack, hdap ▸ le_refl _, hmarks ▸ .nil, [], ?_, nofun, ?_, fun u => ?_⟩
  · rw [World.calls, hcalls, List.append_nil]
    rfl
  · rw [hmarks]
    rfl
  · rw [hdap]
    exact .nil _

/-- What changes nothing that the debugger sees is watched. -/
theorem watched_silent {w w' : World ((τ × List HookEntry) × DapClient)} {l : List Event} (hmarks : marks l = []) (hext : w'.ext = w.ext)
    (hstack : w'.reqCtx.profiler.stack = w.reqCtx.profiler.stack) (hthread : w'.reqCtx.debugThreadId = w.reqCtx.debugThreadId) :
    Watched w l w' := watched_unseen hmarks (by rw [hext]) (by rw [hext]) hstack hthread

theorem entriesOf_append (threadId : Nat) (calls calls' : List HookEntry) :
    entriesOf threadId (calls ++ calls') = entriesOf threadId calls ++ entriesOf threadId calls' := List.filter_append ..

/-- Two stretches that are seen are seen together. -/
theorem Seen.trans {w w₁ w₂ : World ((τ × List HookEntry) × DapClient)} {l₁ l₂ : List Event} (h : Seen w l₁ w₁) (h' : Seen w₁ l₂ w₂) :
    Seen w (l₁ ++ l₂) w₂ := by
  have hid : w₁.threadId = w.threadId := by rw [World.threadId, h.thread]; rfl
  obtain ⟨new, hcalls, hown, hshown, hmodes⟩ := h.calls
  obtain ⟨new', hcalls', hown', hshown', hmodes'⟩ := h'.calls
  refine ⟨h'.thread.trans h.thread, h'.stack.trans h.stack, h.next.trans h'.next, marks_append l₁ l₂ ▸ h.balanced.append h'.balanced,
    new ++ new', ?_, fun e he => ?_, ?_, fun u => ?_⟩
  · rw [hcalls', hcalls, List.append_assoc]
  · rcases List.mem_append.mp he with he | he
    · exact hown e he
    · have hnext := h.next
      rcases hown' e he with hsame | hlater
      · exact Or.inl (hsame.trans hid)
      · exact Or.inr (hnext.trans hlater)
  · rw [entriesOf_append, List.map_append, hshown, marks_append, h.balanced.openings_append, List.map_append, ← hid, hshown', h.stack]
  · rw [entriesOf_append]
    exact (hmodes u).append (hmodes' u)

theorem frames_watched : Frames (Watched (τ := τ)) where
  quiet h := watched_silent rfl h.ext h.stack h.thread
  trans {w w₁ w₂ l₁ l₂} h h' hno hid := by
    have hfirst := h (noGraphql_append.mp hno).1 hid
    refine hfirst.trans (h' (noGraphql_append.mp hno).2 ?_)
    have hnext := hfirst.next
    rw [World.threadId, hfirst.thread]
    exact lt_of_lt_of_le hid hnext

/-! ## The executor -/

variable {env : ExecutionEnv ((τ × List HookEntry) × DapClient)} {run : RunFn ((τ × List HookEntry) × DapClient)}

/-- Middleware other than `graphql` leaves what the debugger is told of the request, the debugger, and its calls alone. -/
def LeavesDebugger (env : ExecutionEnv ((τ × List HookEntry) × DapClient)) : Prop :=
  ∀ name behavior execute, name ≠ "graphql" → env.registry name = some (.other behavior execute) → ∀ call c ext,
    (execute call c ext).2.1.profiler.stack = c.profiler.stack ∧ (execute call c ext).2.1.debugThreadId = c.debugThreadId ∧
    (execute call c ext).2.2.1.2 = ext.1.2 ∧ (execute call c ext).2.2.2 = ext.2

theorem coversCache_watched : CoversCache (Watched (τ := τ)) := fun _ _ _ _ => watched_silent rfl rfl rfl rfl

/-- A call of a middleware is watched, unless it is of graphql. -/
theorem watched_invoke (hleaves : LeavesDebugger env) (name : String) (args : List String) (config : String) (c : PipelineContext)
    (target : Option String) : Prog.Follows Watched (invoke env run name args config c target) := by
  have hR : Prog.Chain (Watched (τ := τ)) := frames_watched.chain
  intro w r w' l h
  have hfollows : ∀ behavior execute, env.registry name = some (.other behavior execute) → name ≠ "graphql" →
      Prog.Follows Watched (invoke env run name args config c target) := by
    intro behavior execute hname hgraphql
    unfold invoke
    rw [hname]
    refine Prog.follows_bind hR (Prog.follows_emit fun _ => watched_silent rfl rfl rfl rfl) fun _ =>
      Prog.follows_bind hR (Prog.follows_update fun w => ?_) fun _ =>
      Prog.follows_bind hR (Prog.follows_ofExcept hR _) fun _ => Prog.follows_pure hR _
    obtain ⟨hstack, hthread, hcalls, hdap⟩ := hleaves name behavior execute hgraphql hname
      { args := args, config := config, state := c.state, targetName := target } w.reqCtx w.ext
    exact watched_unseen rfl hcalls hdap hstack hthread
  cases hname : env.registry name with
  | none =>
    simp only [invoke, hname] at h
    cases h
    exact watched_silent rfl rfl rfl rfl
  | some middleware =>
    cases middleware with
    | cache =>
      have hcache : Prog.Follows Watched (invoke env run name args config c target) := by
        unfold invoke
        rw [hname]
        exact Prog.follows_bind hR (Prog.follows_emit fun _ => watched_silent rfl rfl rfl rfl) fun _ =>
          Prog.follows_bind hR (follows_cacheMiddleware frames_watched coversCache_watched _ _) fun _ => Prog.follows_pure hR _
      exact hcache w r w' l h
    | graphql resolvers execute =>
      intro hno
      simp only [invoke, hname] at h
      obtain ⟨l', -, rfl⟩ := Prog.emit_bind_eq_some h
      exact absurd List.mem_cons_self hno
    | other behavior execute =>
      by_cases hgraphql : name = "graphql"
      · intro hno
        subst hgraphql
        simp only [invoke, hname] at h
        obtain ⟨l', -, rfl⟩ := Prog.emit_bind_eq_some h
        exact absurd List.mem_cons_self hno
      · exact hfollows behavior execute hname hgraphql w r w' l h

/-- A nested run is watched when its log is. -/
theorem watched_run {entry : Entry} {pipeline : Pipeline} {input : Value} {handled : Option String} {inner : List Event}
    {result : Except Failure PipelineOutput} {w w' : World ((τ × List HookEntry) × DapClient)} (h : Watched w inner w') :
    Watched w [.run entry pipeline input handled inner result] w' := by
  intro hno hid
  have hmarks : marks [.run entry pipeline input handled inner result] = marks inner := by
    rw [marks, Event.marks, marks, List.append_nil]
  have hseen := h (by simpa [NoGraphql, invokedNames, Event.invokedNames] using hno) hid
  exact ⟨hseen.thread, hseen.stack, hseen.next, hmarks ▸ hseen.balanced, hmarks ▸ hseen.calls⟩

/-- A task is seen by a thread of its own. -/
theorem watched_task (hdebug : env.debugger = some recordingHook) (hleaves : LeavesDebugger env) (hruns : CoversRuns run Watched)
    (name : String) (task : AsyncTask) : Prog.Follows Watched (runTask env run name task) := by
  intro w r w' l h
  unfold runTask at h
  obtain ⟨w₁, hinner, rfl⟩ := Prog.within_eq_some h
  rw [allocateThread, hdebug] at hinner
  dsimp only at hinner
  rw [Prog.modify_bind] at hinner
  have hbody : ∃ r' inner, taskBody env run task
      { w with reqCtx := { debugThreadId := some w.ext.2.server.nextThreadId }
               ext := (w.ext.1, { w.ext.2 with server := { w.ext.2.server with nextThreadId := w.ext.2.server.nextThreadId + 1 } }) } =
        some (r', w₁, inner) ∧ l = [.task name inner] := by
    rcases Prog.bind_eq_some hinner with ⟨_, hattempt, -⟩ | ⟨_, w₂, l₁, l₂, hattempt, hrest, rfl⟩
    · obtain ⟨_, he, -⟩ := Prog.attempt_eq_some hattempt
      cases he
    · obtain ⟨r', -, henclose⟩ := Prog.attempt_eq_some hattempt
      obtain ⟨inner, htask, rfl⟩ := Prog.enclose_eq_some henclose
      unfold Exec.req at hrest
      rw [Prog.gets_bind] at hrest
      cases hrest
      exact ⟨r', inner, htask, rfl⟩
  obtain ⟨r', inner, hbody, rfl⟩ := hbody
  have hwatched := follows_taskBody_of_invokes frames_watched.chain hruns.nested (watched_invoke hleaves) task _ _ _ _ hbody
  intro hno hid
  obtain ⟨-, -, hnext, -, new, hcalls, hown, -, hmodes⟩ :=
    hwatched (by simpa [NoGraphql, invokedNames, Event.invokedNames] using hno) (Nat.lt_succ_self _)
  dsimp only at hnext
  have hlater : ∀ e ∈ new, w.ext.2.server.nextThreadId ≤ e.threadId := by
    intro e he
    rcases hown e he with hsame | hlater
    · rw [hsame]
      exact le_refl _
    · exact (Nat.le_succ _).trans hlater
  refine ⟨rfl, rfl, (Nat.le_succ _).trans hnext, .nil, new, hcalls, fun e he => Or.inr (hlater e he), ?_, hmodes⟩
  have hnone : entriesOf w.threadId new = [] := by
    rw [entriesOf, List.filter_eq_nil_iff]
    intro e he
    have := hlater e he
    simp only [decide_eq_true_eq]
    omega
  rw [hnone]
  rfl

/-- A join is watched, with the runs of its tasks. -/
theorem watched_join (hdebug : env.debugger = some recordingHook) (hleaves : LeavesDebugger env) (hruns : CoversRuns run Watched)
    (config : String) (parsedTargets : Option (List String)) (input : Value) :
    Prog.Follows Watched (handleJoin env run config parsedTargets input) := by
  have hR : Prog.Chain (Watched (τ := τ)) := frames_watched.chain
  have hjoin : ∀ names results, Prog.Follows Watched (joinTasks env run names results) := by
    intro names
    induction names with
    | nil => exact fun _ => Prog.follows_pure hR _
    | cons name names ih =>
      intro results
      refine Prog.follows_bind hR (Prog.follows_update fun _ => watched_silent rfl rfl rfl rfl) fun task => ?_
      cases task with
      | none => exact ih _
      | some task =>
        refine Prog.follows_bind hR (watched_task hdebug hleaves hruns name task) fun r => ?_
        rcases r with (e | _) | ⟨value, profiler⟩
        · exact ih _
        · exact ih _
        · exact Prog.follows_bind hR (Prog.follows_modify fun _ => watched_silent rfl rfl rfl rfl) fun _ => ih _
  exact Prog.follows_bind hR (Prog.follows_ofExcept hR _) fun _ => Prog.follows_bind hR (hjoin _ _) fun _ =>
    Prog.follows_bind hR (Prog.follows_emit fun _ => watched_silent rfl rfl rfl rfl) fun _ => Prog.follows_pure hR _

/-- The core of a step is watched. -/
theorem coversCore_watched (hdebug : env.debugger = some recordingHook) (hleaves : LeavesDebugger env)
    (hruns : CoversRuns run Watched) : CoversCore env run Watched where
  toFrames := frames_watched
  runs := hruns.nested
  joins := watched_join hdebug hleaves hruns
  spawns _ _ _ _ _ _ :=
    Prog.follows_bind frames_watched.chain (Prog.follows_emit fun _ => watched_silent rfl rfl rfl rfl) fun _ =>
      Prog.follows_modify fun _ => watched_silent rfl rfl rfl rfl
  invokes := watched_invoke hleaves

/-- A sample takes the last name off the stack. -/
theorem stack_recordSample_pop (p : Profiler) : p.recordSample.pop.stack = p.stack.dropLast := by
  unfold Profiler.recordSample Profiler.pop
  split <;> rfl

/-- Before a step the hook is called once. -/
theorem handleDebuggerBefore_recording (hdebug : env.debugger = some recordingHook) (step : PipelineStep) (name : String)
    (ctx : StepContext) (w : World ((τ × List HookEntry) × DapClient)) :
    ∃ mode state dap, handleDebuggerBefore env step name ctx w = some (.ok (ctx.withState state),
        { w with reqCtx := { w.reqCtx with debugStepMode := mode }
                 ext := ((w.ext.1.1, w.calls ++ [w.ext.2.entry w.threadId name step.location w.reqCtx.profiler.stack]), dap) }, []) ∧
      dap.server.nextThreadId = w.ext.2.server.nextThreadId ∧
      (w.ext.2.entry w.threadId name step.location w.reqCtx.profiler.stack).Decided (w.ext.2.server.modeOf w.threadId) ∧
      ∀ u, dap.server.modeOf u =
        if u = w.threadId then
          (w.ext.2.entry w.threadId name step.location w.reqCtx.profiler.stack).modeAfter (w.ext.2.server.modeOf w.threadId)
        else w.ext.2.server.modeOf u := by
  obtain ⟨mode, state, dap, hhook, hfacts⟩ := beforeStep_recording w.threadId name step.location ctx.pipeCtx.state
    w.reqCtx.profiler.stack w.ext
  refine ⟨mode, state, dap, ?_, hfacts⟩
  unfold handleDebuggerBefore
  rw [hdebug]
  dsimp only
  rw [Prog.update_bind]
  dsimp only
  rw [World.threadId] at hhook
  rw [hhook]
  rfl

/-- A step that starts and finishes is one call of the hook, and those of what is nested in it. -/
theorem watched_step (hdebug : env.debugger = some recordingHook) (hleaves : LeavesDebugger env) (hruns : CoversRuns run Watched)
    {step : PipelineStep} {ctx : StepContext} {v : Value} {w w' : World ((τ × List HookEntry) × DapClient)}
    {r : Except Failure (StepOutcome × StepContext)} {l : List Event} (h : executeStep env run step ctx w = some (r, w', l)) :
    Watched w (.entered step v :: l) w' := by
  unfold executeStep at h
  rw [Exec.modifyReq, Prog.modify_bind] at h
  obtain ⟨mode, state, dap, hbefore, hnext, hdecided, hmodes⟩ := handleDebuggerBefore_recording hdebug step (determineStepName step) ctx
    { w with reqCtx := { w.reqCtx with profiler := w.reqCtx.profiler.push (determineStepName step) } }
  rw [Prog.bind_of_ok hbefore] at h
  obtain ⟨l', hrest, rfl⟩ := Prog.logged_eq_some h
  obtain ⟨_, ha, -⟩ | ⟨raw, w₂, l₁, l₂, ha, hend, rfl⟩ := Prog.bind_eq_some hrest
  · obtain ⟨_, he, -⟩ := Prog.attempt_eq_some ha
    cases he
  obtain ⟨raw', he, hdispatch⟩ := Prog.attempt_eq_some ha
  obtain rfl : raw = raw' := Except.ok.inj he
  obtain ⟨l₃, hlast, rfl⟩ := Prog.emit_bind_eq_some hend
  rw [Exec.modifyReq, Prog.modify_bind] at hlast
  obtain ⟨-, rfl, rfl⟩ := Prog.ofExcept_eq_some hlast
  have hwatched := follows_dispatchCore (coversCore_watched hdebug hleaves hruns) _ _ _ _ _ _ hdispatch
  intro hno hid
  have hno₁ : NoGraphql l₁ := (noGraphql_append (l := [_]).mp hno).2 |> noGraphql_append.mp |>.1
  obtain ⟨hthread, hstack, hlater, hbalanced, new, hcalls, hown, hshown, hdecides⟩ :=
    hwatched hno₁ (by simpa [World.threadId, hnext] using hid)
  dsimp only at hthread hstack hlater hcalls
  have hmarks : marks (.entered step v :: (l₁ ++ (.settled step (ctx.withState state).pipeCtx.state (failureOf raw)
      ((settle step (ctx.withState state) raw).map stateAfter) :: []))) = .start step :: marks l₁ ++ .finish :: [] := by
    rw [marks, marks_append, marks, marks, Event.marks, Event.marks]
    rfl
  have hlength : (w.reqCtx.profiler.push (determineStepName step)).stack.length = w.reqCtx.profiler.stack.length + 1 := by
    simp [Profiler.push]
  let entry := w.ext.2.entry w.threadId (determineStepName step) step.location (w.reqCtx.profiler.push (determineStepName step)).stack
  have hshownEntry : entry.shown = shownStep (step, w.reqCtx.profiler.stack.length + 1) := by
    rw [← hlength]
    rfl
  refine ⟨hthread, ?_, hnext ▸ hlater, hmarks ▸ .around hbalanced .nil, entry :: new, ?_, fun e he => ?_, ?_, fun u => ?_⟩
  · dsimp only
    rw [stack_recordSample_pop, hstack, Profiler.push, List.dropLast_concat]
  · rw [List.append_cons]
    exact hcalls
  · rcases List.mem_cons.mp he with rfl | he
    · exact Or.inl rfl
    · exact hnext ▸ hown e he
  · rw [entriesOf, List.filter_cons_of_pos (by exact decide_eq_true rfl), List.map_cons, hshownEntry, hmarks, List.cons_append, openings,
      List.map_cons, hbalanced.openings_append, openings, openings, List.append_nil, ← hlength]
    exact congrArg _ hshown
  · by_cases hu : u = w.threadId
    · rw [hu, entriesOf, List.filter_cons_of_pos (by exact decide_eq_true rfl)]
      refine .cons hdecided ?_
      have hmode : dap.server.modeOf w.threadId = entry.modeAfter (w.ext.2.server.modeOf w.threadId) :=
        (hmodes w.threadId).trans (if_pos rfl)
      exact hmode ▸ hdecides w.threadId
    · rw [entriesOf, List.filter_cons_of_neg (by exact fun h => hu (of_decide_eq_true h).symm)]
      have hmode : dap.server.modeOf u = w.ext.2.server.modeOf u := (hmodes u).trans (if_neg hu)
      exact hmode ▸ hdecides u

/-- One turn of the loop is watched: the hook is called before its step. -/
theorem watched_iterate (hdebug : env.debugger = some recordingHook) (hleaves : LeavesDebugger env) (hruns : CoversRuns run Watched)
    (steps : List PipelineStep) (idx : Nat) (step : PipelineStep) (s : LoopState) :
    Prog.Follows Watched (iterate env run steps idx step s) := by
  have hR : Prog.Chain (Watched (τ := τ)) := frames_watched.chain
  unfold iterate
  split
  · exact Prog.follows_bind hR (Prog.follows_emit fun _ => watched_silent rfl rfl rfl rfl) fun _ => Prog.follows_pure hR _
  · intro w r w' l h
    obtain ⟨l', hturn, rfl⟩ := Prog.emit_bind_eq_some h
    rcases Prog.bind_eq_some hturn with ⟨_, hstep, -⟩ | ⟨⟨outcome, ctx⟩, w₁, l₁, l₂, hstep, hrest, rfl⟩
    · exact watched_step hdebug hleaves hruns hstep
    · refine frames_watched.trans (watched_step hdebug hleaves hruns hstep) ?_
      cases outcome with
      | «continue» =>
        cases hrest
        exact watched_silent rfl rfl rfl rfl
      | ret output =>
        have hsaves : Prog.Follows Watched (do
            runPendingCacheSaves ctx.pipeCtx.pendingCacheSaves output
            pure (.inr output) : Exec ((τ × List HookEntry) × DapClient) (LoopState ⊕ PipelineOutput)) :=
          Prog.follows_bind hR (follows_runPendingCacheSaves frames_watched coversCache_watched _ _) fun _ => Prog.follows_pure hR _
        exact hsaves _ _ _ _ hrest

/-- Every run of the executor is watched. -/
theorem watched_execute (hdebug : env.debugger = some recordingHook) (hleaves : LeavesDebugger env) {n : Nat} {pipeline : Pipeline}
    {input : Value} {handled : Option String} {w w' : World ((τ × List HookEntry) × DapClient)} {r : Except Failure PipelineOutput}
    {l : List Event} (h : executeWithErrorShortCircuit env n pipeline input handled w = some (r, w', l)) : Watched w l w' := by
  induction n generalizing pipeline input handled w r w' l with
  | zero => cases h
  | succ n ih =>
    have hruns : CoversRuns (executeWithErrorShortCircuit env n) (Watched (τ := τ)) :=
      fun _ _ _ _ _ _ _ hrun => watched_run (ih hrun)
    have hloop : CoversLoop env (executeWithErrorShortCircuit env n) (Watched (τ := τ)) :=
      { toFrames := frames_watched
        turns := watched_iterate hdebug hleaves hruns
        cache := coversCache_watched }
    exact follows_runPipeline hloop _ _ _ _ _ _ _ h

end WebPipe
