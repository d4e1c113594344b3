import WebPipe.Middleware.Handlebars

namespace WebPipe

/-! ## Concurrent renders do not interfere -/

namespace TemplateRenders

variable {τ : Type} {engine : HandlebarsEngine τ} {s s₀ : TemplateRenders τ}

@[simp] theorem setPhase_text (s : TemplateRenders τ) (i : Nat) (phase : RenderPhase) (j : Nat) :
    ((s.setPhase i phase).render j).text = (s.render j).text := by
  unfold setPhase TemplateRender.text
  by_cases hj : j = i <;> simp [hj]

@[simp] theorem setPhase_data (s : TemplateRenders τ) (i : Nat) (phase : RenderPhase) (j : Nat) :
    ((s.setPhase i phase).render j).data = (s.render j).data := by
  unfold setPhase
  by_cases hj : j = i <;> simp [hj]

@[simp] theorem setPhase_self (s : TemplateRenders τ) (i : Nat) (phase : RenderPhase) :
    ((s.setPhase i phase).render i).phase = phase := by
  simp [setPhase]

/-- A render that goes on leaves the others as they are. -/
theorem setPhase_other (s : TemplateRenders τ) {i j : Nat} (phase : RenderPhase) (hj : j ≠ i) :
    (s.setPhase i phase).render j = s.render j := by
  simp [setPhase, hj]

/-! What a step does in each phase -/

/-- The first phase looks the template up. -/
theorem step_looking {i : Nat} (h : (s.render i).phase = .looking) :
    engine.step s i = s.setPhase i (engine.lookFor s.registry (s.render i).text) := by
  simp only [HandlebarsEngine.step, h]

/-- The second registers it. -/
theorem step_registering {i : Nat} (h : (s.render i).phase = .registering) :
    engine.step s i = { s with registry := (engine.registerTemplate s.registry (s.render i).text).2 }.setPhase i
      (engine.registerTemplate s.registry (s.render i).text).1 := by
  simp only [HandlebarsEngine.step, h]

/-- The third renders. -/
theorem step_rendering {i : Nat} (h : (s.render i).phase = .rendering) :
    engine.step s i = s.setPhase i (.done (engine.renderNamed s.registry (s.render i).text (s.render i).data)) := by
  simp only [HandlebarsEngine.step, h]

/-- A render that has ended stays as it is. -/
theorem step_done {i : Nat} {answer : Except WebPipeError String} (h : (s.render i).phase = .done answer) :
    engine.step s i = s := by
  simp only [HandlebarsEngine.step, h]

/-- The name of a render's template. -/
def idOf (engine : HandlebarsEngine τ) (s : TemplateRenders τ) (i : Nat) : String := engine.templateId (s.render i).text

/-- No two texts of the renders share a name, and no template of theirs includes another of them by its name. -/
structure Separate (engine : HandlebarsEngine τ) (s : TemplateRenders τ) : Prop where
  ids : ∀ i j, s.idOf engine i = s.idOf engine j → (s.render i).text = (s.render j).text
  partials : ∀ i t, engine.compile (s.render i).text = .ok t → ∀ handlebars handlebars' : String → Option τ,
    (∀ name, (∀ j, name ≠ s.idOf engine j) → handlebars name = handlebars' name) →
      ∀ data, engine.render handlebars t data = engine.render handlebars' t data

/-- What holds of the renders in every state of a run. -/
structure Invariant (engine : HandlebarsEngine τ) (s₀ s : TemplateRenders τ) : Prop where
  text : ∀ i, (s.render i).text = (s₀.render i).text
  data : ∀ i, (s.render i).data = (s₀.render i).data
  partials : ∀ name, (∀ i, name ≠ s₀.idOf engine i) → s.registry.handlebars name = s₀.registry.handlebars name
  registered : ∀ i, s.registry.registeredTemplates (s₀.idOf engine i) = true →
    ∃ t, engine.compile (s₀.render i).text = .ok t ∧ s.registry.handlebars (s₀.idOf engine i) = some t
  rendering : ∀ i, (s.render i).phase = .rendering → s.registry.registeredTemplates (s₀.idOf engine i) = true
  done : ∀ i answer, (s.render i).phase = .done answer →
    answer = engine.renderAlone s₀.registry.handlebars (s₀.render i)

/-- A render that moves on without the registry keeps the invariant, when its new phase is right. -/
theorem Invariant.setPhase (h : Invariant engine s₀ s) {i : Nat} {phase : RenderPhase}
    (hrendering : phase = .rendering → s.registry.registeredTemplates (s₀.idOf engine i) = true)
    (hdone : ∀ answer, phase = .done answer → answer = engine.renderAlone s₀.registry.handlebars (s₀.render i)) :
    Invariant engine s₀ (s.setPhase i phase) where
  text j := by simp [h.text j]
  data j := by simp [h.data j]
  partials := h.partials
  registered := h.registered
  rendering j hj := by
    by_cases hji : j = i
    · subst hji
      exact hrendering (by simpa using hj)
    · exact h.rendering j (by rwa [setPhase_other s phase hji] at hj)
  done j answer hj := by
    by_cases hji : j = i
    · subst hji
      exact hdone answer (by simpa using hj)
    · exact h.done j answer (by rwa [setPhase_other s phase hji] at hj)

/-- A template that compiles is registered under its own name only. -/
theorem Invariant.register (hsep : s₀.Separate engine) (h : Invariant engine s₀ s) {i : Nat} {t : τ}
    (ht : engine.compile (s₀.render i).text = .ok t) :
    Invariant engine s₀ { s with registry := {
      handlebars := fun name => if name = s₀.idOf engine i then some t else s.registry.handlebars name
      registeredTemplates := fun name => name = s₀.idOf engine i || s.registry.registeredTemplates name } } where
  text := h.text
  data := h.data
  partials name hname := (if_neg (hname i)).trans (h.partials name hname)
  registered j hj := by
    by_cases hid : s₀.idOf engine j = s₀.idOf engine i
    · exact ⟨t, by rw [hsep.ids j i hid, ht], if_pos hid⟩
    · simp only [hid, decide_false, Bool.false_or] at hj
      obtain ⟨u, hu, hreg⟩ := h.registered j hj
      exact ⟨u, hu, (if_neg hid).trans hreg⟩
  rendering j hj := by
    rw [Bool.or_eq_true]
    exact Or.inr (h.rendering j hj)
  done := h.done

/-- A registered template renders as it does alone. -/
theorem Invariant.renderNamed (hsep : s₀.Separate engine) (h : Invariant engine s₀ s) {i : Nat}
    (hi : (s.render i).phase = .rendering) :
    engine.renderNamed s.registry (s.render i).text (s.render i).data =
      engine.renderAlone s₀.registry.handlebars (s₀.render i) := by
  obtain ⟨t, ht, hreg⟩ := h.registered i (h.rendering i hi)
  rw [idOf] at hreg
  rw [HandlebarsEngine.renderNamed, h.text i, h.data i, hreg, HandlebarsEngine.renderAlone, ht]
  simp only [HandlebarsEngine.renderOver, hsep.partials i t ht _ _ h.partials]

/-- Every step of a render keeps the invariant. -/
theorem Invariant.step (hsep : s₀.Separate engine) (h : Invariant engine s₀ s) (i : Nat) :
    Invariant engine s₀ (engine.step s i) := by
  cases hphase : (s.render i).phase with
  | looking =>
    rw [step_looking hphase]
    refine h.setPhase ?_ ?_
    · intro hlook
      simp only [HandlebarsEngine.lookFor, h.text i] at hlook
      split at hlook
      · assumption
      · cases hlook
    · intro answer hlook
      simp only [HandlebarsEngine.lookFor] at hlook
      split at hlook <;> cases hlook
  | registering =>
    rw [step_registering hphase]
    simp only [HandlebarsEngine.registerTemplate, h.text i]
    by_cases hreg : s.registry.registeredTemplates (engine.templateId (s₀.render i).text) = true
    · -- another render has registered the template since
      simp only [hreg, if_true]
      exact h.setPhase (fun _ => hreg) (by simp)
    · simp only [hreg, Bool.false_eq_true, if_false]
      cases hcompile : engine.compile (s₀.render i).text with
      | error e =>
        refine h.setPhase (by simp) ?_
        intro answer hdone
        rw [← RenderPhase.done.inj hdone, HandlebarsEngine.renderAlone, hcompile]
      | ok t =>
        refine (h.register hsep hcompile).setPhase ?_ (by simp)
        intro _
        simp
  | rendering =>
    rw [step_rendering hphase]
    refine h.setPhase (by simp) ?_
    intro answer hdone
    rw [← RenderPhase.done.inj hdone, h.renderNamed hsep hphase]
  | done answer =>
    rw [step_done hphase]
    exact h

/-- The steps a render has yet to take, at most. -/
def remaining : RenderPhase → Nat
  | .looking => 3
  | .registering => 2
  | .rendering => 1
  | .done _ => 0

/-- A step of a render brings it nearer to its answer and leaves the other renders where they stand. -/
theorem remaining_step (engine : HandlebarsEngine τ) (s : TemplateRenders τ) (i j : Nat) :
    remaining ((engine.step s i).render j).phase ≤ remaining (s.render j).phase - if i = j then 1 else 0 := by
  by_cases hij : i = j
  · subst hij
    rw [if_pos rfl]
    cases hphase : (s.render i).phase with
    | looking =>
      rw [step_looking hphase, setPhase_self, HandlebarsEngine.lookFor]
      split <;> simp [remaining]
    | registering =>
      rw [step_registering hphase, setPhase_self, HandlebarsEngine.registerTemplate]
      split
      · simp [remaining]
      · cases engine.compile (s.render i).text <;> simp [remaining]
    | rendering => simp [step_rendering hphase, remaining]
    | done answer => simp [step_done hphase, hphase, remaining]
  · rw [if_neg hij, Nat.sub_zero]
    have hji : j ≠ i := Ne.symm hij
    cases hphase : (s.render i).phase with
    | looking => rw [step_looking hphase, setPhase_other s _ hji]
    | registering => rw [step_registering hphase, setPhase_other _ _ hji]
    | rendering => rw [step_rendering hphase, setPhase_other s _ hji]
    | done answer => rw [step_done hphase]

/-- A render that is scheduled often enough ends. -/
theorem remaining_after (engine : HandlebarsEngine τ) (schedule : List Nat) (j : Nat) :
    ∀ s : TemplateRenders τ, remaining ((Runs.after engine.step s schedule).render j).phase ≤
      remaining (s.render j).phase - schedule.count j := by
  induction schedule with
  | nil => intro s; simp
  | cons i schedule ih =>
    intro s
    have hstep := remaining_step engine s i j
    have hrest := ih (engine.step s i)
    rw [Runs.after_cons, List.count_cons]
    by_cases hij : i = j
    · simp only [hij, beq_self_eq_true, if_true] at hstep hrest ⊢
      omega
    · simp only [hij, beq_iff_eq, if_false] at hstep hrest ⊢
      omega

end TemplateRenders

/-- In whatever order concurrent renders take their steps over the shared registry, each answers what it would on its own with
the partials alone, and has answered once it has taken three steps. -/
theorem renders_do_not_interfere {τ : Type} (engine : HandlebarsEngine τ) (s : TemplateRenders τ) (hsep : s.Separate engine)
    (hstart : ∀ i, (s.render i).phase = .looking) (hnone : ∀ name, s.registry.registeredTemplates name = false)
    (schedule : List Nat) (i : Nat) :
    (∀ answer, ((Runs.after engine.step s schedule).render i).phase = .done answer →
        answer = engine.renderAlone s.registry.handlebars (s.render i)) ∧
      (3 ≤ schedule.count i → ∃ answer, ((Runs.after engine.step s schedule).render i).phase = .done answer) := by
  have hinit : TemplateRenders.Invariant engine s s :=
    { text := fun _ => rfl
      data := fun _ => rfl
      partials := fun _ _ => rfl
      registered := fun i hi => by simp [hnone] at hi
      rendering := fun i hi => by simp [hstart] at hi
      done := fun i answer hi => by simp [hstart] at hi }
  constructor
  · exact (Runs.after_of_step (fun _ i h => h.step hsep i) hinit schedule).done i
  · intro hcount
    have hrem := TemplateRenders.remaining_after engine schedule i s
    rw [hstart i] at hrem
    cases hphase : ((Runs.after engine.step s schedule).render i).phase with
    | done answer => exact ⟨answer, rfl⟩
    | looking =>
      simp only [hphase, TemplateRenders.remaining] at hrem
      omega
    | registering =>
      simp only [hphase, TemplateRenders.remaining] at hrem
      omega
    | rendering =>
      simp only [hphase, TemplateRenders.remaining] at hrem
      omega

/-- A template engine for texts without expressions. -/
def plainText : HandlebarsEngine String where
  compile := .ok
  render := fun _ text _ => .ok text
  notFound := fun name => "Template not found: " ++ name
  defaultHasher := String.length

/-- Two renders of one template: both find it missing, and one registers it. -/
theorem renders_do_not_interfere_two :
    ∃ answer, ((Runs.after plainText.step
        { registry := { handlebars := fun _ => none }, render := fun _ => { template := "<p>OK</p>", data := .null } }
          [0, 1, 1, 0, 1, 0]).render 0).phase = .done answer ∧
      answer = plainText.renderAlone (fun _ => none) { template := "<p>OK</p>", data := .null } := by
  have h := renders_do_not_interfere plainText
    { registry := { handlebars := fun _ => none }, render := fun _ => { template := "<p>OK</p>", data := .null } }
    ⟨fun _ _ _ => rfl, fun _ _ _ _ _ _ _ => rfl⟩ (fun _ => rfl) (fun _ => rfl) [0, 1, 1, 0, 1, 0] 0
  obtain ⟨answer, hanswer⟩ := h.2 (by decide)
  exact ⟨answer, hanswer, h.1 answer hanswer⟩

end WebPipe
