import WebPipe.Lemmas.Step

/-!
# The loop over the steps

What one turn of the loop does, how the loop splits at any step, and that the saves at its end always come to an end.
-/

namespace WebPipe

variable {σ : Type} {env : ExecutionEnv σ} {run : RunFn σ}

/-! ## One turn -/

/-- A step that is passed over changes nothing but the handled error type, and is logged as such. -/
theorem iterate_of_skips {s : LoopState} {step : PipelineStep} (h : s.skips step = true) (steps : List PipelineStep)
    (idx : Nat) (w : World σ) :
    iterate env run steps idx step s w = some (.ok (.inl s.recompute), w, [.skipped step s.pipeCtx.state]) := by
  unfold iterate
  rw [if_pos h]
  rfl

/-- A step that is not passed over is entered and executed. -/
theorem iterate_of_not_skips {s : LoopState} {step : PipelineStep} (h : s.skips step = false) (steps : List PipelineStep)
    (idx : Nat) :
    iterate env run steps idx step s = (do
      Prog.emit (.entered step s.pipeCtx.state)
      let p ← executeStep env run step (s.stepContext idx steps)
      match p.1 with
      | .continue => pure (.inl (s.next p.2))
      | .ret output => do
        runPendingCacheSaves p.2.pipeCtx.pendingCacheSaves output
        pure (.inr output)) := by
  unfold iterate
  rw [h]
  rfl

/-- The ways a turn of the loop ends. -/
inductive Turn (env : ExecutionEnv σ) (run : RunFn σ) (steps : List PipelineStep) (idx : Nat) (step : PipelineStep)
    (s : LoopState) (w : World σ) : Except Failure (LoopState ⊕ PipelineOutput) → World σ → List Event → Prop
  | skip (hs : s.skips step = true) : Turn env run steps idx step s w (.ok (.inl s.recompute)) w [.skipped step s.pipeCtx.state]
  | fail {f : Failure} {w' : World σ} {l : List Event} (hs : s.skips step = false)
      (hx : executeStep env run step (s.stepContext idx steps) w = some (.error f, w', l)) :
      Turn env run steps idx step s w (.error f) w' (.entered step s.pipeCtx.state :: l)
  | next {ctx : StepContext} {w' : World σ} {l : List Event} (hs : s.skips step = false)
      (hx : executeStep env run step (s.stepContext idx steps) w = some (.ok (.continue, ctx), w', l)) :
      Turn env run steps idx step s w (.ok (.inl (s.next ctx))) w' (.entered step s.pipeCtx.state :: l)
  | ret {ctx : StepContext} {output : PipelineOutput} {w₁ w' : World σ} {l₁ l₂ : List Event} (hs : s.skips step = false)
      (hx : executeStep env run step (s.stepContext idx steps) w = some (.ok (.ret output, ctx), w₁, l₁))
      (hsaves : runPendingCacheSaves ctx.pipeCtx.pendingCacheSaves output w₁ = some (.ok (), w', l₂)) :
      Turn env run steps idx step s w (.ok (.inr output)) w' (.entered step s.pipeCtx.state :: (l₁ ++ l₂))
  | retFail {ctx : StepContext} {output : PipelineOutput} {f : Failure} {w₁ w' : World σ} {l₁ l₂ : List Event}
      (hs : s.skips step = false)
      (hx : executeStep env run step (s.stepContext idx steps) w = some (.ok (.ret output, ctx), w₁, l₁))
      (hsaves : runPendingCacheSaves ctx.pipeCtx.pendingCacheSaves output w₁ = some (.error f, w', l₂)) :
      Turn env run steps idx step s w (.error f) w' (.entered step s.pipeCtx.state :: (l₁ ++ l₂))

/-- One turn of the loop in parts: what is skipped, what is executed, and how it goes on. -/
theorem iterate_turn {s : LoopState} {step : PipelineStep} {steps : List PipelineStep} {idx : Nat} {w w' : World σ}
    {r : Except Failure (LoopState ⊕ PipelineOutput)} {l : List Event}
    (h : iterate env run steps idx step s w = some (r, w', l)) : Turn env run steps idx step s w r w' l := by
  cases hs : s.skips step with
  | true =>
    rw [iterate_of_skips hs] at h
    cases h
    exact .skip hs
  | false =>
    rw [iterate_of_not_skips hs] at h
    obtain ⟨l', hstep, rfl⟩ := Prog.emit_bind_eq_some h
    obtain ⟨f, hx, rfl⟩ | ⟨⟨outcome, ctx⟩, w₁, l₁, l₂, hx, hend, rfl⟩ := Prog.bind_eq_some hstep
    · exact .fail hs hx
    cases outcome with
    | «continue» =>
      cases hend
      rw [List.append_nil]
      exact .next hs hx
    | ret output =>
      obtain ⟨f, hsaves, rfl⟩ | ⟨_, w₂, l₃, l₄, hsaves, hret, rfl⟩ := Prog.bind_eq_some hend
      · exact .retFail hs hx hsaves
      · cases hret
        rw [List.append_nil]
        exact .ret hs hx hsaves

/-! ## The loop -/

/-- The loop over later steps, when it has not returned. -/
def continueLoop (env : ExecutionEnv σ) (run : RunFn σ) (steps : List PipelineStep) (idx : Nat)
    (rest : List PipelineStep) : LoopState ⊕ PipelineOutput → Exec σ (LoopState ⊕ PipelineOutput)
  | .inl s => loopSteps env run steps idx rest s
  | .inr output => pure (.inr output)

/-- The loop is a turn and the rest. -/
theorem loopSteps_cons (steps : List PipelineStep) (idx : Nat) (step : PipelineStep) (rest : List PipelineStep)
    (s : LoopState) :
    loopSteps env run steps idx (step :: rest) s =
      iterate env run steps idx step s >>= continueLoop env run steps (idx + 1) rest := by
  rw [loopSteps]
  rfl

/-- The loop over two parts is the loop over the first and then over the second. -/
theorem loopSteps_append (steps : List PipelineStep) (idx : Nat) (a b : List PipelineStep) (s : LoopState) :
    loopSteps env run steps idx (a ++ b) s =
      loopSteps env run steps idx a s >>= continueLoop env run steps (idx + a.length) b := by
  induction a generalizing idx s with
  | nil =>
    rw [List.nil_append, loopSteps, pure_bind]
    rfl
  | cons step a ih =>
    rw [List.cons_append, loopSteps_cons, loopSteps_cons, bind_assoc]
    congr 1
    funext r
    cases r with
    | inl s' =>
      have hidx : idx + (step :: a).length = idx + 1 + a.length := by
        rw [List.length_cons]
        omega
      rw [hidx]
      exact ih (idx + 1) s'
    | inr output =>
      rw [continueLoop]
      exact (pure_bind (m := Exec σ) (Sum.inr output) _).symm

/-! ## The handled error type -/

/-- A run that handles no error never comes to handle one. -/
theorem handled_none_iterate {s s' : LoopState} {step : PipelineStep} {steps : List PipelineStep} {idx : Nat}
    {w w' : World σ} {l : List Event} (hs : s.handledErrorType = none)
    (h : iterate env run steps idx step s w = some (.ok (.inl s'), w', l)) : s'.handledErrorType = none := by
  have hr : s.recompute.handledErrorType = none := by
    unfold LoopState.recompute
    dsimp only
    split
    · exact hs
    · rfl
  cases iterate_turn h with
  | skip => exact hr
  | next => exact hr

/-- A run that handles nothing at the start handles nothing. -/
theorem handled_none_loopSteps {steps : List PipelineStep} (rest : List PipelineStep) {idx : Nat} {s s' : LoopState}
    {w w' : World σ} {l : List Event} (hs : s.handledErrorType = none)
    (h : loopSteps env run steps idx rest s w = some (.ok (.inl s'), w', l)) : s'.handledErrorType = none := by
  induction rest generalizing idx s w l with
  | nil =>
    cases h
    exact hs
  | cons step rest ih =>
    rw [loopSteps_cons] at h
    obtain ⟨r, w₁, l₁, l₂, hi, hl, -⟩ := Prog.bind_eq_ok h
    cases r with
    | inl s₁ => exact ih (handled_none_iterate hs hi) hl
    | inr output => cases hl

/-! ## The saves -/

/-- Only the store and the clock differ, and what the other callers have left to do. -/
def SameRequest (w w' : World σ) : Prop := w'.reqCtx = w.reqCtx ∧ w'.ext = w.ext

/-- The event is a call on the store. -/
def Event.IsCache : Event → Prop
  | .cache _ _ _ _ => True
  | _ => False

/-- Others leave the request alone, and log calls of the store. -/
theorem otherAll_spec (as : List OtherAction) (w : World σ) :
    SameRequest w (w.otherAll as).2 ∧ ∀ e ∈ (w.otherAll as).1, e.IsCache := by
  induction as generalizing w with
  | nil => exact ⟨⟨rfl, rfl⟩, nofun⟩
  | cons a as ih =>
    obtain ⟨⟨h1, h2⟩, h3⟩ := ih (w.other a).2
    have ha : SameRequest w (w.other a).2 ∧ ∀ e ∈ (w.other a).1, e.IsCache := by
      cases a with
      | tick nanos => exact ⟨⟨rfl, rfl⟩, nofun⟩
      | call lag c =>
        refine ⟨⟨rfl, rfl⟩, ?_⟩
        intro e he
        cases List.mem_singleton.mp he
        trivial
    refine ⟨⟨h1.trans ha.1.1, h2.trans ha.1.2⟩, ?_⟩
    intro e he
    rcases List.mem_append.mp he with he | he
    · exact ha.2 e he
    · exact h3 e he

/-- Releasing a slot always succeeds and leaves everything but the store alone. -/
theorem clearKey_total (key : String) (w : World σ) :
    ∃ w' l, Exec.clearKey key w = some (.ok (), w', l) ∧ SameRequest w w' ∧ ∀ e ∈ l, e.IsCache := by
  obtain ⟨hsame, hcache⟩ := otherAll_spec (w.others.headD []) { w with others := w.others.tail }
  refine ⟨_, _, rfl, hsame, ?_⟩
  intro e he
  simp only [List.nil_append, List.append_nil, List.mem_append, List.mem_singleton] at he
  rcases he with he | rfl
  · exact hcache e he
  · trivial

theorem SameRequest.trans {w w' w'' : World σ} (h : SameRequest w w') (h' : SameRequest w' w'') : SameRequest w w'' :=
  ⟨h'.1.trans h.1, h'.2.trans h.2⟩

/-- A put fails only when the clock panics. -/
theorem putKey_error {key : String} {response : CachedResponse} {ttlSecs : Option Nat} {w w' : World σ} {f : Failure}
    {l : List Event} (h : Exec.putKey key response ttlSecs w = some (.error f, w', l)) : f = .panic := by
  obtain ⟨_, hi, -⟩ | ⟨_, w₁, l₁, l₂, -, hrest, -⟩ := Prog.bind_eq_some h
  · cases hi
  rw [Prog.gets_bind] at hrest
  obtain ⟨_, hs, -⟩ | ⟨answer, w₂, l₃, l₄, -, hend, -⟩ := Prog.bind_eq_some hrest
  · cases hs
  split at hend
  · cases hend
    rfl
  · cases hend

/-- Releasing every slot always succeeds. -/
theorem releaseSlots_total (saves : List PendingCacheSave) (w : World σ) :
    ∃ w' l, releaseSlots saves w = some (.ok (), w', l) ∧ SameRequest w w' ∧ ∀ e ∈ l, e.IsCache := by
  induction saves generalizing w with
  | nil => exact ⟨w, [], rfl, ⟨rfl, rfl⟩, nofun⟩
  | cons save saves ih =>
    have hfirst : ∃ w₁ l₁, releaseSlot save w = some (.ok (), w₁, l₁) ∧ SameRequest w w₁ ∧ ∀ e ∈ l₁, e.IsCache := by
      unfold releaseSlot
      split
      · exact clearKey_total save.key w
      · exact ⟨w, [], rfl, ⟨rfl, rfl⟩, nofun⟩
    obtain ⟨w₁, l₁, h₁, hs₁, hc₁⟩ := hfirst
    obtain ⟨w₂, l₂, h₂, hs₂, hc₂⟩ := ih w₁
    refine ⟨w₂, l₁ ++ l₂, ?_, hs₁.trans hs₂, ?_⟩
    · rw [releaseSlots, Prog.bind_of_ok h₁, h₂]
      rfl
    · intro e he
      rcases List.mem_append.mp he with he | he
      · exact hc₁ e he
      · exact hc₂ e he

/-- The saves of a run fail only when the clock panics. -/
theorem saves_error {saves : List PendingCacheSave} {output : PipelineOutput} {w w' : World σ} {f : Failure}
    {l : List Event} (h : runPendingCacheSaves saves output w = some (.error f, w', l)) : f = .panic := by
  unfold runPendingCacheSaves at h
  split at h
  · obtain ⟨w₁, l₁, hrel, -⟩ := releaseSlots_total saves w
    rw [hrel] at h
    cases h
  · induction saves generalizing w l with
    | nil => cases h
    | cons save saves ih =>
      obtain ⟨e, hput, he⟩ | ⟨_, w₁, l₁, l₂, -, hrest, -⟩ := Prog.bind_eq_some h
      · obtain rfl := Except.error.inj he
        exact putKey_error hput
      · exact ih hrest

end WebPipe
