import Mathlib.Data.List.Basic

/-!
# Runs of a machine

A machine is a step function; a run folds it over a list of actions. `Always` says a property of every state of a run,
`EveryStep` says a property of every step of it. The rules turn facts about one step into facts about every run.
-/

namespace Runs

variable {S A : Type*} (step : S → A → S)

/-- The state after a list of actions. -/
def after (s : S) (as : List A) : S := as.foldl step s

/-- A property of every state of a run, the first and the last included. -/
def Always (P : S → Prop) (s : S) (as : List A) : Prop := ∀ pre post, as = pre ++ post → P (after step s pre)

/-- A property of every step of a run: of the state before it and the action. -/
def EveryStep (C : S → A → Prop) (s : S) (as : List A) : Prop :=
  ∀ pre a post, as = pre ++ a :: post → C (after step s pre) a

variable {step}

@[simp] theorem after_nil (s : S) : after step s [] = s := rfl

@[simp] theorem after_cons (s : S) (a : A) (as : List A) : after step s (a :: as) = after step (step s a) as := rfl

/-- A run is continued by another. -/
theorem after_append (s : S) (as bs : List A) : after step s (as ++ bs) = after step (after step s as) bs :=
  List.foldl_append

/-- The last step of a run. -/
theorem after_snoc (s : S) (as : List A) (a : A) : after step s (as ++ [a]) = step (after step s as) a := by
  simp [after_append]

/-- A property that every step keeps holds after every run that starts in it. -/
theorem after_of_step {P : S → Prop} (hstep : ∀ s a, P s → P (step s a)) {s : S} (h : P s) (as : List A) :
    P (after step s as) := by
  induction as generalizing s with
  | nil => exact h
  | cons a as ih => exact ih (hstep s a h)

theorem EveryStep.first {C : S → A → Prop} {s : S} {a : A} {as : List A} (h : EveryStep step C s (a :: as)) : C s a :=
  h [] a as rfl

theorem EveryStep.tail {C : S → A → Prop} {s : S} {a : A} {as : List A} (h : EveryStep step C s (a :: as)) :
    EveryStep step C (step s a) as := by
  intro pre b post e
  exact h (a :: pre) b post (by rw [e, List.cons_append])

/-- A condition on every step of a run is a condition on every step of its end. -/
theorem EveryStep.of_append {C : S → A → Prop} {s : S} {as bs : List A} (h : EveryStep step C s (as ++ bs)) :
    EveryStep step C (after step s as) bs := by
  intro pre a post e
  have := h (as ++ pre) a post (by rw [e, List.append_assoc])
  rwa [after_append] at this

@[simp] theorem everyStep_nil (C : S → A → Prop) (s : S) : EveryStep step C s [] := by
  intro pre a post e
  simp at e

/-- A condition on every step is a condition on the first and on every later one. -/
theorem everyStep_cons {C : S → A → Prop} {s : S} {a : A} {as : List A} :
    EveryStep step C s (a :: as) ↔ C s a ∧ EveryStep step C (step s a) as := by
  constructor
  · intro h
    exact ⟨h.first, h.tail⟩
  · rintro ⟨h, ht⟩ pre b post e
    cases pre with
    | nil =>
      cases e
      exact h
    | cons c pre =>
      simp only [List.cons_append, List.cons.injEq] at e
      obtain ⟨rfl, e⟩ := e
      exact ht pre b post e

/-- A condition is met by every step of a run, evaluated. -/
def check (step : S → A → S) (c : S → A → Bool) : S → List A → Bool
  | _, [] => true
  | s, a :: as => c s a && check step c (step s a) as

/-- A condition that can be computed is checked along the run. -/
theorem everyStep_of_check {c : S → A → Bool} {s : S} {as : List A} (h : check step c s as = true) :
    EveryStep step (fun s a => c s a = true) s as := by
  induction as generalizing s with
  | nil => exact everyStep_nil _ s
  | cons a as ih =>
    obtain ⟨hfirst, hrest⟩ := Bool.and_eq_true_iff.mp h
    exact everyStep_cons.mpr ⟨hfirst, ih hrest⟩

/-- The rule for invariants that need a condition on each step: what holds at the start, and is kept by every step that meets
the condition, holds in every state of a run all of whose steps meet it. -/
theorem always_of_everyStep {P : S → Prop} {C : S → A → Prop} (hstep : ∀ s a, P s → C s a → P (step s a)) {s : S}
    (h : P s) (as : List A) (hc : EveryStep step C s as) : Always step P s as := by
  induction as generalizing s with
  | nil =>
    intro pre post e
    obtain ⟨rfl, -⟩ := List.append_eq_nil_iff.mp e.symm
    exact h
  | cons a as ih =>
    intro pre post e
    cases pre with
    | nil => exact h
    | cons b pre =>
      simp only [List.cons_append, List.cons.injEq] at e
      obtain ⟨rfl, e⟩ := e
      exact ih (hstep s a h hc.first) hc.tail pre post e

/-- The rule for exact conditions: when, from a state with the property (and an invariant `I` of all runs), a step keeps the
property exactly if it meets the condition, then the property holds all along a run exactly if every step meets it. -/
theorem always_iff_everyStep {I P : S → Prop} {C : S → A → Prop} (hinv : ∀ s a, I s → I (step s a))
    (hstep : ∀ s a, I s → P s → (P (step s a) ↔ C s a)) {s : S} (hi : I s) (h : P s) (as : List A) :
    Always step P s as ↔ EveryStep step C s as := by
  constructor
  · intro ha pre a post e
    have hp : P (after step s pre) := ha pre (a :: post) e
    have hq : P (after step s (pre ++ [a])) := ha (pre ++ [a]) post (by rw [e, List.append_assoc]; rfl)
    rw [after_snoc] at hq
    exact (hstep _ a (after_of_step hinv hi pre) hp).mp hq
  · intro hc
    have key : Always step (fun s => I s ∧ P s) s as :=
      always_of_everyStep (fun s a hp hca => ⟨hinv s a hp.1, (hstep s a hp.1 hp.2).mpr hca⟩) ⟨hi, h⟩ as hc
    intro pre post e
    exact (key pre post e).2

end Runs
