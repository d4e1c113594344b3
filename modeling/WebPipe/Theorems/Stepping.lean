import WebPipe.Lemmas.Stepping

/-!
# Stepping stops where it should

The stepping mode compares lengths of the stack only. With one call for every step that starts, one deeper than the stack before it, these
lengths are depths of brackets, and depths tell where a step and the step around it have finished.
-/

namespace WebPipe

open Brackets

variable {τ : Type}

/-! ## Calls under one mode -/

theorem Decides.split {mode mode' : Option SteppingMode} {before later : List HookEntry} {e : HookEntry}
    (h : Decides mode (before ++ e :: later) mode') : ∃ m, e.Decided m ∧ Decides (e.modeAfter m) later mode' := by
  induction before generalizing mode with
  | nil =>
    cases h with
    | cons he hlater => exact ⟨mode, he, hlater⟩
  | cons _ before ih =>
    cases h with
    | cons _ hrest => exact ih hrest

/-- Calls that a mode does not pause at leave it. -/
theorem Decides.quiet {mode mode' : Option SteppingMode} {calls more : List HookEntry} (h : Decides mode (calls ++ more) mode')
    (hfree : ∀ e ∈ calls, e.atBreakpoint = false) (hdeep : ∀ e ∈ calls, mode.any (fun m => m.pausesAt e.depth) = false) :
    NoPause calls ∧ Decides mode more mode' := by
  induction calls with
  | nil => exact ⟨nofun, h⟩
  | cons e calls ih =>
    cases h with
    | cons he hcalls =>
      have haction : e.action = none := by
        rw [HookEntry.Decided, hfree e List.mem_cons_self, hdeep e List.mem_cons_self, Bool.or_false] at he
        exact Option.isSome_eq_false_iff.mp he |> Option.isNone_iff_eq_none.mp
      rw [HookEntry.modeAfter, haction] at hcalls
      obtain ⟨hnone, hmore⟩ := ih hcalls (fun e he => hfree e (List.mem_cons_of_mem _ he)) fun e he => hdeep e (List.mem_cons_of_mem _ he)
      exact ⟨List.forall_mem_cons.mpr ⟨haction, hnone⟩, hmore⟩

/-- The first call that a mode pauses at pauses. -/
theorem Decides.first {mode mode' : Option SteppingMode} {calls : List HookEntry} (h : Decides mode calls mode')
    (hfirst : ∀ e ∈ calls.head?, mode.any (fun m => m.pausesAt e.depth) = true) : PausesFirst calls := by
  cases h with
  | nil => trivial
  | @cons _ _ e calls he _ =>
    have hpause := hfirst e rfl
    rw [HookEntry.Decided, hpause, Bool.or_true] at he
    exact Option.ne_none_iff_isSome.mpr he

/-- A mode that pauses at none of the first calls and at the one after them. -/
theorem Decides.next {mode mode' : Option SteppingMode} {calls : List HookEntry} (h : Decides mode calls mode')
    (hfree : ∀ e ∈ calls, e.atBreakpoint = false) (k : Nat)
    (hdeep : ∀ e ∈ calls.take k, mode.any (fun m => m.pausesAt e.depth) = false)
    (hfirst : ∀ e ∈ (calls.drop k).head?, mode.any (fun m => m.pausesAt e.depth) = true) :
    NoPause (calls.take k) ∧ PausesFirst (calls.drop k) := by
  rw [← List.take_append_drop k calls] at h
  obtain ⟨hnone, hmore⟩ := h.quiet (fun e he => hfree e (List.mem_of_mem_take he)) hdeep
  exact ⟨hnone, hmore.first hfirst⟩

/-! ## Depths of calls -/

theorem depths_eq {calls : List HookEntry} {steps : List (PipelineStep × Nat)} (h : calls.map HookEntry.shown = steps.map shownStep) :
    calls.map HookEntry.depth = steps.map Prod.snd := by
  have := congrArg (List.map fun x => x.2.2) h
  rwa [List.map_map, List.map_map] at this

/-- The depths of the first calls and of those after them, from the steps that they are for. -/
theorem depths_split {calls : List HookEntry} {first last : List (PipelineStep × Nat)}
    (h : calls.map HookEntry.depth = (first ++ last).map Prod.snd) {k : Nat} (hk : first.length = k) :
    (∀ e ∈ calls.take k, ∃ x ∈ first, x.2 = e.depth) ∧ ∀ e ∈ (calls.drop k).head?, ∃ x ∈ last.head?, x.2 = e.depth := by
  subst hk
  have htake : (calls.take first.length).map HookEntry.depth = first.map Prod.snd := by
    rw [List.map_take, h, List.map_append, List.take_left' (List.length_map ..)]
  have hdrop : (calls.drop first.length).map HookEntry.depth = last.map Prod.snd := by
    rw [List.map_drop, h, List.map_append, List.drop_left' (List.length_map ..)]
  refine ⟨fun e he => ?_, fun e he => ?_⟩
  · exact List.mem_map.mp (htake ▸ List.mem_map_of_mem he)
  · have hhead := congrArg List.head? hdrop
    rw [List.head?_map, List.head?_map, Option.mem_def.mp he] at hhead
    exact Option.map_eq_some_iff.mp hhead.symm

/-! ## The next pause -/

/-- Calls for what starts and finishes after the start of a step, under the mode that the answer to its pause leaves. -/
theorem nextPause_of_decides {pre rest : List (Mark PipelineStep)} {step : PipelineStep} {d : Nat} {later : List HookEntry}
    {action : StepAction} {mode' : Option SteppingMode} (hbalanced : Balanced (pre ++ .start step :: rest))
    (hdepths : later.map HookEntry.depth = (openings (depthAfter d pre + 1) rest).map Prod.snd)
    (hfree : ∀ e ∈ later, e.atBreakpoint = false) (h : Decides (action.mode (depthAfter d pre + 1)) later mode') :
    NextPause rest later action := by
  cases action with
  | «continue» =>
    rw [← List.append_nil later] at h
    exact (h.quiet hfree fun _ _ => rfl).1
  | stepIn => exact h.first fun _ _ => rfl
  | stepOver =>
    obtain ⟨inner, after, rfl, hinner, hopenings, hdeep, hfirst⟩ := over_spec hbalanced d
    rw [hopenings] at hdepths
    obtain ⟨htake, hdrop⟩ := depths_split hdepths (length_openings _ 0 inner)
    refine ⟨inner, after, rfl, hinner, h.next hfree (starts inner) (fun e he => ?_) fun e he => ?_⟩
    · obtain ⟨x, hx, hdepth⟩ := htake e he
      have := hdeep x hx
      simp only [StepAction.mode, Option.any_some, SteppingMode.pausesAt, decide_eq_false_iff_not]
      omega
    · obtain ⟨x, hx, hdepth⟩ := hdrop e he
      have := hfirst x hx
      simp only [StepAction.mode, Option.any_some, SteppingMode.pausesAt, decide_eq_true_eq]
      omega
  | stepOut =>
    rcases out_spec hbalanced d with ⟨inner, mid, after, rfl, hinner, hmid, hopenings, hdeep, hfirst⟩ | ⟨inner, after, rfl, hinner, hafter, hdeep⟩
    · rw [hopenings] at hdepths
      have hlength : (openings (depthAfter d pre + 1) inner ++ openings (depthAfter d pre) mid).length = starts inner + starts mid := by
        rw [List.length_append, length_openings _ 0 inner, length_openings _ 0 mid, starts, starts]
      obtain ⟨htake, hdrop⟩ := depths_split hdepths hlength
      refine Or.inl ⟨inner, mid, after, rfl, hinner, hmid, h.next hfree _ (fun e he => ?_) fun e he => ?_⟩
      · obtain ⟨x, hx, hdepth⟩ := htake e he
        have := hdeep x hx
        simp only [StepAction.mode, Option.any_some, SteppingMode.pausesAt, decide_eq_false_iff_not]
        omega
      · obtain ⟨x, hx, hdepth⟩ := hdrop e he
        have := hfirst x hx
        simp only [StepAction.mode, Option.any_some, SteppingMode.pausesAt, decide_eq_true_eq]
        omega
    · rw [← List.append_nil later] at h
      refine Or.inr ⟨inner, after, rfl, hinner, hafter, (h.quiet hfree fun e he => ?_).1⟩
      obtain ⟨x, hx, hdepth⟩ := List.mem_map.mp (hdepths ▸ List.mem_map_of_mem he : e.depth ∈ _)
      have := hdeep x hx
      simp only [StepAction.mode, Option.any_some, SteppingMode.pausesAt, decide_eq_false_iff_not]
      omega

/-- Every step that a run starts is one call of the hook, in order. Where a call for the thread of the request pauses and no later one is
at a breakpoint, the thread pauses next where the answer says. -/
theorem stepping_stops {env : ExecutionEnv ((τ × List HookEntry) × DapClient)} (hdebug : env.debugger = some recordingHook)
    (hleaves : LeavesDebugger env) {n : Nat} {pipeline : Pipeline} {input : Value} {w w' : World ((τ × List HookEntry) × DapClient)}
    {r : Except Failure PipelineOutput} {l : List Event} (h : executePipelineInternal env n pipeline input w = some (r, w', l))
    (hno : NoGraphql l) (hid : w.threadId < w.ext.2.server.nextThreadId) :
    ∃ new, w'.calls = w.calls ++ new ∧
      (entriesOf w.threadId new).map HookEntry.shown = (openings w.reqCtx.profiler.stack.length (marks l)).map shownStep ∧
      ∀ before e later, entriesOf w.threadId new = before ++ e :: later → ∀ action, e.action = some action →
        (∀ e ∈ later, e.atBreakpoint = false) →
        ∃ pre step rest, marks l = pre ++ .start step :: rest ∧ starts pre = before.length ∧ starts rest = later.length ∧
          NextPause rest later action := by
  obtain ⟨-, -, -, hbalanced, new, hcalls, -, hshown, hdecides⟩ := watched_execute hdebug hleaves h hno hid
  refine ⟨new, hcalls, hshown, fun before e later hsplit action haction hfree => ?_⟩
  have hdecides := hdecides w.threadId
  rw [hsplit] at hshown hdecides
  have hlength : before.length < (openings w.reqCtx.profiler.stack.length (marks l)).length := by
    have := congrArg List.length hshown
    simp only [List.length_map, List.length_append, List.length_cons] at this
    omega
  obtain ⟨pre, step, rest, hmarks, hpre⟩ := openings_split hlength
  rw [hmarks, openings_append, openings] at hshown
  rw [hmarks] at hbalanced
  have hdepths := depths_eq hshown
  rw [List.map_append, List.map_append] at hdepths
  obtain ⟨-, hafter⟩ := List.append_inj hdepths (by rw [List.length_map, List.length_map, hpre])
  rw [List.map_cons, List.map_cons, List.cons.injEq] at hafter
  obtain ⟨hdepth, hlater⟩ := hafter
  obtain ⟨mode, -, hdecides⟩ := hdecides.split
  rw [HookEntry.modeAfter, haction] at hdecides
  dsimp only at hdecides hdepth
  rw [hdepth] at hdecides
  refine ⟨pre, step, rest, hmarks, (length_openings ..).trans hpre, ?_, nextPause_of_decides hbalanced hlater hfree hdecides⟩
  have := congrArg List.length hlater
  rw [List.length_map, List.length_map, length_openings _ 0] at this
  exact this.symm

/-- `greet` answers with a greeting, under the debug server with its calls recorded. -/
def steppedEnv : ExecutionEnv ((Unit × List HookEntry) × DapClient) :=
  { registry := fun name => if name = "greet" then some (.stateless .merge fun _ => .ok ({}, .string "hello")) else none
    debugger := some recordingHook }

/-- A pipeline of two steps, at lines 3 and 4. -/
def twoGreetings : Pipeline :=
  { steps := [.regular { name := "greet", configPresent := true, location := { line := 3 } },
      .regular { name := "greet", configPresent := true, location := { line := 4 } }] }

/-- A request to the server of `app.wp`, with a breakpoint at line 3 and a client that steps over. -/
def steppedWorld : World ((Unit × List HookEntry) × DapClient) :=
  .start (.newWithLimits 0 0 0 0 0)
    (((), []), { server := { filePath := "app.wp", breakpoints := AList.insert "app.wp" [3] ∅ }, answers := fun _ => .stepOver })

theorem leavesDebugger_steppedEnv : LeavesDebugger steppedEnv := by
  intro name behavior execute _ h call c ext
  unfold steppedEnv at h
  dsimp only at h
  split at h
  · cases h
    exact ⟨rfl, rfl, rfl, rfl⟩
  · cases h

/-- The calls of the hook and whether `graphql` was called, in a run of the two greetings. -/
theorem twoGreetings_run :
    (executePipelineInternal steppedEnv 1 twoGreetings (.object []) steppedWorld).map
        (fun out => (out.2.1.calls.map fun e => (e.threadId, e.action, e.atBreakpoint), decide (NoGraphql out.2.2))) =
      some ([(0, some .stepOver, true), (0, some .stepOver, false)], true) := by
  decide +kernel

/-- From the first greeting the client steps over to the second. -/
theorem stepping_stops_twoGreetings : ∃ r w' l new,
    executePipelineInternal steppedEnv 1 twoGreetings (.object []) steppedWorld = some (r, w', l) ∧ w'.calls = [] ++ new ∧
      ∃ first second, entriesOf 0 new = [] ++ first :: [second] ∧ first.action = some .stepOver ∧
        ∃ pre step rest, marks l = pre ++ .start step :: rest ∧ starts pre = 0 ∧ starts rest = 1 ∧ NextPause rest [second] .stepOver := by
  obtain ⟨⟨r, w', l⟩, hrun, hout⟩ := Option.map_eq_some_iff.mp twoGreetings_run
  obtain ⟨hcalls, hno⟩ := Prod.mk.inj hout
  obtain ⟨new, hnew, -, hnext⟩ := stepping_stops rfl leavesDebugger_steppedEnv hrun (of_decide_eq_true hno) (by decide)
  have hsame : w'.calls = new := hnew
  rw [hsame] at hcalls
  obtain ⟨first, tail, rfl, hfirst, htail⟩ := List.map_eq_cons_iff.mp hcalls
  obtain ⟨second, last, rfl, hsecond, hlast⟩ := List.map_eq_cons_iff.mp htail
  obtain rfl := List.map_eq_nil_iff.mp hlast
  simp only [Prod.mk.injEq] at hfirst hsecond
  have hown : entriesOf 0 [first, second] = [first, second] := by simp [entriesOf, hfirst.1, hsecond.1]
  exact ⟨r, w', l, _, hrun, hnew, first, second, hown, hfirst.2.1,
    hnext [] first [second] hown .stepOver hfirst.2.1 (by simpa using hsecond.2.2)⟩

end WebPipe
