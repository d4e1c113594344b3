import Mathlib.Data.List.Basic

/-!
# Computations with a state, failures and a log

`Prog S E ε α` reads and writes a state `S`, may fail with an `ε`, logs events of `E`, and may run out of fuel, which is
`none`. A failure keeps the state and the log it was reached with.

Five kinds of rules: `bind_eq_some` takes one run apart; `Follows` says what every run of a computation relates, its log
included; `Yields` says what it returns; `Sim` says that two computations do the same from related states, and `Blind` that one
does; `Ends` puts one run together.
-/

/-- A computation over a state `S` that logs events `E` and may fail with an `ε`. -/
def Prog (S E ε α : Type*) := S → Option (Except ε α × S × List E)

namespace Prog

universe u

variable {S E ε : Type*} {α β : Type u}

/-- The computation that does nothing. -/
def ret (a : α) : Prog S E ε α := fun s => some (.ok a, s, [])

/-- One computation after another; a failure of the first is the result. -/
def andThen (x : Prog S E ε α) (f : α → Prog S E ε β) : Prog S E ε β := fun s =>
  match x s with
  | none => none
  | some (.error e, s₁, l₁) => some (.error e, s₁, l₁)
  | some (.ok a, s₁, l₁) =>
    match f a s₁ with
    | none => none
    | some (r, s₂, l₂) => some (r, s₂, l₁ ++ l₂)

instance : Monad (Prog S E ε) where
  pure := ret
  bind := andThen

/-- Fail. -/
def fail (e : ε) : Prog S E ε α := fun s => some (.error e, s, [])

/-- Out of fuel. -/
def diverge : Prog S E ε α := fun _ => none

/-- Read from the state. -/
def gets (f : S → α) : Prog S E ε α := fun s => some (.ok (f s), s, [])

/-- Change the state. -/
def modify (f : S → S) : Prog S E ε Unit := fun s => some (.ok (), f s, [])

/-- Read from the state and change it. -/
def update (f : S → α × S) : Prog S E ε α := fun s => some (.ok (f s).1, (f s).2, [])

/-- Log an event. -/
def emit (e : E) : Prog S E ε Unit := fun s => some (.ok (), s, [e])

/-- Log several events. -/
def emitAll (l : List E) : Prog S E ε Unit := fun s => some (.ok (), s, l)

/-- The outcome of a computation as a value: it does not fail. -/
def attempt (x : Prog S E ε α) : Prog S E ε (Except ε α) := fun s =>
  match x s with
  | none => none
  | some (r, s₁, l) => some (.ok r, s₁, l)

/-- An outcome as a computation. -/
def ofExcept : Except ε α → Prog S E ε α
  | .ok a => ret a
  | .error e => fail e

/-- Run a computation and log it as one event made of its log and its outcome. -/
def enclose (wrap : List E → Except ε α → E) (x : Prog S E ε α) : Prog S E ε α := fun s =>
  match x s with
  | none => none
  | some (r, s₁, l) => some (r, s₁, [wrap l r])

/-- Run a computation in a changed state, and give back part of the old one afterwards. -/
def within (enter : S → S) (leave : S → S → S) (x : Prog S E ε α) : Prog S E ε α := fun s =>
  match x (enter s) with
  | none => none
  | some (r, s₁, l) => some (r, leave s s₁, l)

/-! ## One run taken apart -/

@[simp] theorem pure_apply (a : α) (s : S) : (pure a : Prog S E ε α) s = some (.ok a, s, []) := rfl

@[simp] theorem gets_apply (f : S → α) (s : S) : (gets f : Prog S E ε α) s = some (.ok (f s), s, []) := rfl

@[simp] theorem modify_apply (f : S → S) (s : S) : (modify f : Prog S E ε Unit) s = some (.ok (), f s, []) := rfl

@[simp] theorem update_apply (f : S → α × S) (s : S) :
    (update f : Prog S E ε α) s = some (.ok (f s).1, (f s).2, []) := rfl

@[simp] theorem emit_apply (e : E) (s : S) : (emit e : Prog S E ε Unit) s = some (.ok (), s, [e]) := rfl

/-- An ended run with a log in front of its own. -/
def logged (l : List E) : Option (Except ε α × S × List E) → Option (Except ε α × S × List E)
  | none => none
  | some (r, s, l') => some (r, s, l ++ l')

@[simp] theorem logged_none (l : List E) : logged l (none : Option (Except ε α × S × List E)) = none := rfl

@[simp] theorem logged_some (l : List E) (r : Except ε α) (s : S) (l' : List E) :
    logged l (some (r, s, l')) = some (r, s, l ++ l') := rfl

theorem logged_eq_some {l l'' : List E} {o : Option (Except ε α × S × List E)} {r : Except ε α} {s : S}
    (h : logged l o = some (r, s, l'')) : ∃ l', o = some (r, s, l') ∧ l'' = l ++ l' := by
  rcases o with _ | ⟨r', s', l'⟩
  · cases h
  · cases h
    exact ⟨l', rfl, rfl⟩

/-- A sequence continues where its first part succeeded. -/
theorem bind_of_ok {x : Prog S E ε α} {f : α → Prog S E ε β} {s s₁ : S} {a : α} {l : List E}
    (h : x s = some (.ok a, s₁, l)) : (x >>= f) s = logged l (f a s₁) := by
  change andThen x f s = _
  unfold andThen
  rw [h]
  dsimp only
  cases f a s₁ with
  | none => rfl
  | some p => rfl

/-- A sequence goes on from a first part that succeeded without a log. -/
theorem bind_of_quiet {x : Prog S E ε α} {f : α → Prog S E ε β} {s s₁ : S} {a : α} (h : x s = some (.ok a, s₁, [])) :
    (x >>= f) s = f a s₁ := by
  rw [bind_of_ok h]
  rcases f a s₁ with _ | ⟨r, s₂, l⟩
  · rfl
  · rfl

/-- A sequence stops where its first part failed. -/
theorem bind_of_error {x : Prog S E ε α} {f : α → Prog S E ε β} {s s₁ : S} {e : ε} {l : List E}
    (h : x s = some (.error e, s₁, l)) : (x >>= f) s = some (.error e, s₁, l) := by
  change andThen x f s = _
  unfold andThen
  rw [h]

theorem bind_of_none {x : Prog S E ε α} {f : α → Prog S E ε β} {s : S} (h : x s = none) : (x >>= f) s = none := by
  change andThen x f s = none
  unfold andThen
  rw [h]

theorem map_id (x : Prog S E ε α) : id <$> x = x := by
  funext s
  change (x >>= fun a => pure (id a)) s = x s
  rcases hx : x s with _ | ⟨_ | a, s₁, l₁⟩
  · exact bind_of_none hx
  · exact bind_of_error hx
  · rw [bind_of_ok hx]
    simp

theorem bind_pure_left (a : α) (f : α → Prog S E ε β) : pure a >>= f = f a := by
  funext s
  rw [bind_of_ok (pure_apply a s)]
  rcases hf : f a s with _ | ⟨r, s₁, l₁⟩
  · rfl
  · rfl

/-- Sequencing is associative, the log included. -/
theorem bind_bind {γ : Type u} (x : Prog S E ε α) (f : α → Prog S E ε β) (g : β → Prog S E ε γ) :
    x >>= f >>= g = x >>= fun a => f a >>= g := by
  funext s
  rcases hx : x s with _ | ⟨e | a, s₁, l₁⟩
  · rw [bind_of_none hx, bind_of_none (bind_of_none hx)]
  · rw [bind_of_error hx, bind_of_error (bind_of_error hx)]
  · rw [bind_of_ok hx]
    rcases hf : f a s₁ with _ | ⟨e | b, s₂, l₂⟩
    · have hfx : (x >>= f) s = none := by rw [bind_of_ok hx, hf, logged_none]
      rw [bind_of_none hfx, bind_of_none hf, logged_none]
    · have hfx : (x >>= f) s = some (.error e, s₂, l₁ ++ l₂) := by rw [bind_of_ok hx, hf, logged_some]
      rw [bind_of_error hfx, bind_of_error hf, logged_some]
    · have hfx : (x >>= f) s = some (.ok b, s₂, l₁ ++ l₂) := by rw [bind_of_ok hx, hf, logged_some]
      rw [bind_of_ok hfx, bind_of_ok hf]
      rcases g b s₂ with _ | ⟨r, s₃, l₃⟩
      · rfl
      · simp [List.append_assoc]

instance : LawfulMonad (Prog S E ε) := LawfulMonad.mk' _ map_id bind_pure_left bind_bind

/-- The two ways a sequence of computations ends: the first part fails, or both parts run. -/
theorem bind_eq_some {x : Prog S E ε α} {f : α → Prog S E ε β} {s s₂ : S} {r : Except ε β} {l : List E}
    (h : (x >>= f) s = some (r, s₂, l)) :
    (∃ e, x s = some (.error e, s₂, l) ∧ r = .error e) ∨
      ∃ a s₁ l₁ l₂, x s = some (.ok a, s₁, l₁) ∧ f a s₁ = some (r, s₂, l₂) ∧ l = l₁ ++ l₂ := by
  rcases hx : x s with _ | ⟨_ | a, s₁, l₁⟩
  · rw [bind_of_none hx] at h
    cases h
  · rw [bind_of_error hx] at h
    cases h
    exact Or.inl ⟨_, rfl, rfl⟩
  · rw [bind_of_ok hx] at h
    obtain ⟨l', hf, rfl⟩ := logged_eq_some h
    exact Or.inr ⟨a, s₁, l₁, l', rfl, hf, rfl⟩

/-- A sequence that succeeds ran both parts. -/
theorem bind_eq_ok {x : Prog S E ε α} {f : α → Prog S E ε β} {s s₂ : S} {b : β} {l : List E}
    (h : (x >>= f) s = some (.ok b, s₂, l)) :
    ∃ a s₁ l₁ l₂, x s = some (.ok a, s₁, l₁) ∧ f a s₁ = some (.ok b, s₂, l₂) ∧ l = l₁ ++ l₂ := by
  rcases bind_eq_some h with ⟨e, -, he⟩ | h
  · cases he
  · exact h

theorem gets_bind (f : S → α) (g : α → Prog S E ε β) (s : S) : (gets f >>= g) s = g (f s) s := by
  rw [bind_of_ok (gets_apply f s)]
  rcases g (f s) s with _ | p <;> rfl

theorem update_bind (f : S → α × S) (g : α → Prog S E ε β) (s : S) : (update f >>= g) s = g (f s).1 (f s).2 := by
  rw [bind_of_ok (update_apply f s)]
  rcases g (f s).1 (f s).2 with _ | p <;> rfl

theorem modify_bind {β : Type} (f : S → S) (g : Unit → Prog S E ε β) (s : S) : (modify f >>= g) s = g () (f s) := by
  rw [bind_of_ok (modify_apply f s)]
  rcases g () (f s) with _ | p <;> rfl

theorem update_eq_some {f : S → α × S} {s s' : S} {r : Except ε α} {l : List E}
    (h : update f s = some (r, s', l)) : r = .ok (f s).1 ∧ s' = (f s).2 ∧ l = [] := by
  cases h
  exact ⟨rfl, rfl, rfl⟩

/-- A computation that starts by logging an event. -/
theorem emit_bind_eq_some {β : Type} {e : E} {f : Unit → Prog S E ε β} {s s₂ : S} {r : Except ε β} {l : List E}
    (h : (emit e >>= f) s = some (r, s₂, l)) : ∃ l', f () s = some (r, s₂, l') ∧ l = e :: l' := by
  rw [bind_of_ok (emit_apply e s)] at h
  exact logged_eq_some h

theorem attempt_eq_some {x : Prog S E ε α} {s s₁ : S} {r : Except ε (Except ε α)} {l : List E}
    (h : x.attempt s = some (r, s₁, l)) : ∃ r', r = .ok r' ∧ x s = some (r', s₁, l) := by
  unfold attempt at h
  split at h
  · cases h
  · cases h
    exact ⟨_, rfl, by assumption⟩

theorem attempt_of_some {x : Prog S E ε α} {s s₁ : S} {r : Except ε α} {l : List E} (h : x s = some (r, s₁, l)) :
    x.attempt s = some (.ok r, s₁, l) := by
  unfold attempt
  rw [h]

theorem enclose_eq_some {wrap : List E → Except ε α → E} {x : Prog S E ε α} {s s₁ : S} {r : Except ε α} {l : List E}
    (h : enclose wrap x s = some (r, s₁, l)) : ∃ l', x s = some (r, s₁, l') ∧ l = [wrap l' r] := by
  unfold enclose at h
  split at h
  · cases h
  · cases h
    exact ⟨_, by assumption, rfl⟩

theorem enclose_of_some {wrap : List E → Except ε α → E} {x : Prog S E ε α} {s s₁ : S} {r : Except ε α} {l : List E}
    (h : x s = some (r, s₁, l)) : enclose wrap x s = some (r, s₁, [wrap l r]) := by
  unfold enclose
  rw [h]

theorem within_eq_some {enter : S → S} {leave : S → S → S} {x : Prog S E ε α} {s s₂ : S} {r : Except ε α} {l : List E}
    (h : within enter leave x s = some (r, s₂, l)) : ∃ s₁, x (enter s) = some (r, s₁, l) ∧ s₂ = leave s s₁ := by
  unfold within at h
  split at h
  · cases h
  · cases h
    exact ⟨_, by assumption, rfl⟩

theorem within_of_some {enter : S → S} {leave : S → S → S} {x : Prog S E ε α} {s s₁ : S} {r : Except ε α} {l : List E}
    (h : x (enter s) = some (r, s₁, l)) : within enter leave x s = some (r, leave s s₁, l) := by
  unfold within
  rw [h]

theorem ofExcept_eq_some {o r : Except ε α} {s s₁ : S} {l : List E}
    (h : (ofExcept o : Prog S E ε α) s = some (r, s₁, l)) : r = o ∧ s₁ = s ∧ l = [] := by
  cases o with
  | ok a =>
    cases h
    exact ⟨rfl, rfl, rfl⟩
  | error e =>
    cases h
    exact ⟨rfl, rfl, rfl⟩

/-! ## What a run relates -/

/-- Every run of the computation relates the state it starts in, what it logs and the state it ends in. -/
def Follows (R : S → List E → S → Prop) (x : Prog S E ε α) : Prop := ∀ s r s' l, x s = some (r, s', l) → R s l s'

/-- The relation holds of a run that does nothing, and of two runs in a row when it holds of each. -/
structure Chain (R : S → List E → S → Prop) : Prop where
  refl : ∀ s, R s [] s
  trans : ∀ {s s₁ s₂ l₁ l₂}, R s l₁ s₁ → R s₁ l₂ s₂ → R s (l₁ ++ l₂) s₂

section Follows

variable {R : S → List E → S → Prop} {x : Prog S E ε α}

theorem follows_pure (hR : Chain R) (a : α) : Follows R (pure a : Prog S E ε α) := by
  intro s r s' l h
  cases h
  exact hR.refl s

theorem follows_fail (hR : Chain R) (e : ε) : Follows R (fail e : Prog S E ε α) := by
  intro s r s' l h
  cases h
  exact hR.refl s

theorem follows_gets (hR : Chain R) (f : S → α) : Follows R (gets f : Prog S E ε α) := by
  intro s r s' l h
  cases h
  exact hR.refl s

theorem follows_ofExcept (hR : Chain R) (o : Except ε α) : Follows R (ofExcept o : Prog S E ε α) := by
  intro s r s' l h
  obtain ⟨-, rfl, rfl⟩ := ofExcept_eq_some h
  exact hR.refl _

theorem follows_modify {f : S → S} (h : ∀ s, R s [] (f s)) : Follows R (modify f : Prog S E ε Unit) := by
  intro s r s' l hx
  cases hx
  exact h s

theorem follows_update {f : S → α × S} (h : ∀ s, R s [] (f s).2) : Follows R (update f : Prog S E ε α) := by
  intro s r s' l hx
  cases hx
  exact h s

theorem follows_emit {e : E} (h : ∀ s, R s [e] s) : Follows R (emit e : Prog S E ε Unit) := by
  intro s r s' l hx
  cases hx
  exact h s

/-- A run of a sequence is a run of its first part, with a run of the second after it when the first succeeds. -/
theorem follows_bind (hR : Chain R) {f : α → Prog S E ε β} (hx : Follows R x) (hf : ∀ a, Follows R (f a)) :
    Follows R (x >>= f) := by
  intro s r s₂ l h
  rcases bind_eq_some h with ⟨_, hs, -⟩ | ⟨a, s₁, l₁, l₂, hs, hs', rfl⟩
  · exact hx _ _ _ _ hs
  · exact hR.trans (hx _ _ _ _ hs) (hf a _ _ _ _ hs')

theorem follows_attempt (h : Follows R x) : Follows R x.attempt := by
  intro s r s' l hx
  obtain ⟨r', -, hx⟩ := attempt_eq_some hx
  exact h _ _ _ _ hx

/-- An enclosed computation logs one event. -/
theorem follows_enclose {wrap : List E → Except ε α → E} (h : ∀ s r s' l, x s = some (r, s', l) → R s [wrap l r] s') :
    Follows R (enclose wrap x) := by
  intro s r s' l hx
  obtain ⟨inner, hinner, rfl⟩ := enclose_eq_some hx
  exact h _ _ _ _ hinner

theorem follows_within (hR : Chain R) {enter : S → S} {leave : S → S → S} (h : Follows R x)
    (henter : ∀ s, R s [] (enter s)) (hleave : ∀ s s₁, R s₁ [] (leave s s₁)) : Follows R (within enter leave x) := by
  intro s r s' l hx
  obtain ⟨s₁, hinner, rfl⟩ := within_eq_some hx
  have hend := hR.trans (h _ _ _ _ hinner) (hleave s s₁)
  rw [List.append_nil] at hend
  exact hR.trans (henter s) hend

end Follows

/-! ## What is returned -/

/-- Every result the computation returns has the property. -/
def Yields (Q : α → Prop) (x : Prog S E ε α) : Prop := ∀ s a s' l, x s = some (.ok a, s', l) → Q a

section Yields

variable {Q : α → Prop} {x : Prog S E ε α}

theorem yields_pure {a : α} (h : Q a) : Yields Q (pure a : Prog S E ε α) := by
  intro s a' s' l hx
  cases hx
  exact h

theorem yields_fail (e : ε) : Yields Q (fail e : Prog S E ε α) := by
  intro s a s' l hx
  cases hx

theorem yields_bind {Q : β → Prop} {f : α → Prog S E ε β} (hf : ∀ a, Yields Q (f a)) : Yields Q (x >>= f) := by
  intro s b s₂ l h
  obtain ⟨a, s₁, l₁, l₂, -, hs, -⟩ := bind_eq_ok h
  exact hf a _ _ _ _ hs

end Yields

/-! ## Two computations side by side -/

/-- From related states the computations have one outcome and one log, and they end in related states. -/
def Sim {T : Type*} (R : S → T → Prop) (x : Prog S E ε α) (y : Prog T E ε α) : Prop :=
  ∀ s t, R s t → (x s = none ∧ y t = none) ∨
    ∃ r s' t' l, x s = some (r, s', l) ∧ y t = some (r, t', l) ∧ R s' t'

/-- From related states the computation has one outcome and one log, and it ends in related states. -/
def Blind (R : S → S → Prop) (x : Prog S E ε α) : Prop :=
  ∀ s t, R s t → (x s = none ∧ x t = none) ∨
    ∃ r s' t' l, x s = some (r, s', l) ∧ x t = some (r, t', l) ∧ R s' t'

section Sim

variable {T : Type*} {R : S → T → Prop} {x : Prog S E ε α} {y : Prog T E ε α}

theorem sim_pure (a : α) : Sim R (pure a : Prog S E ε α) (pure a : Prog T E ε α) :=
  fun s t h => Or.inr ⟨_, s, t, _, rfl, rfl, h⟩

theorem sim_fail (e : ε) : Sim R (fail e : Prog S E ε α) (fail e : Prog T E ε α) :=
  fun s t h => Or.inr ⟨_, s, t, _, rfl, rfl, h⟩

theorem sim_emit (e : E) : Sim R (emit e : Prog S E ε Unit) (emit e : Prog T E ε Unit) :=
  fun s t h => Or.inr ⟨_, s, t, _, rfl, rfl, h⟩

theorem sim_emitAll (l : List E) : Sim R (emitAll l : Prog S E ε Unit) (emitAll l : Prog T E ε Unit) :=
  fun s t h => Or.inr ⟨_, s, t, _, rfl, rfl, h⟩

theorem sim_diverge : Sim R (diverge : Prog S E ε α) (diverge : Prog T E ε α) := fun _ _ _ => Or.inl ⟨rfl, rfl⟩

theorem sim_ofExcept (o : Except ε α) : Sim R (ofExcept o : Prog S E ε α) (ofExcept o : Prog T E ε α) := by
  cases o with
  | ok a => exact sim_pure a
  | error e => exact sim_fail e

theorem sim_gets {f : S → α} {g : T → α} (hf : ∀ s t, R s t → f s = g t) :
    Sim R (gets f : Prog S E ε α) (gets g : Prog T E ε α) := by
  intro s t h
  refine Or.inr ⟨_, s, t, _, rfl, ?_, h⟩
  rw [gets_apply, hf s t h]

theorem sim_modify {f : S → S} {g : T → T} (hf : ∀ s t, R s t → R (f s) (g t)) :
    Sim R (modify f : Prog S E ε Unit) (modify g : Prog T E ε Unit) :=
  fun s t h => Or.inr ⟨_, f s, g t, _, rfl, rfl, hf s t h⟩

theorem sim_update {f : S → α × S} {g : T → α × T} (hf : ∀ s t, R s t → (f s).1 = (g t).1 ∧ R (f s).2 (g t).2) :
    Sim R (update f : Prog S E ε α) (update g : Prog T E ε α) := by
  intro s t h
  refine Or.inr ⟨_, (f s).2, (g t).2, _, rfl, ?_, (hf s t h).2⟩
  rw [update_apply, (hf s t h).1]

/-- Sequences stay together when their first parts do, and their second parts for all that the first yields. -/
theorem sim_bind_of_yields {Q : α → Prop} {f : α → Prog S E ε β} {g : α → Prog T E ε β} (hx : Sim R x y) (hy : Yields Q x)
    (hf : ∀ a, Q a → Sim R (f a) (g a)) : Sim R (x >>= f) (y >>= g) := by
  intro s t h
  rcases hx s t h with ⟨hs, ht⟩ | ⟨r, s₁, t₁, l, hs, ht, h₁⟩
  · exact Or.inl ⟨bind_of_none hs, bind_of_none ht⟩
  · cases r with
    | error e => exact Or.inr ⟨_, s₁, t₁, _, bind_of_error hs, bind_of_error ht, h₁⟩
    | ok a =>
      rw [bind_of_ok hs, bind_of_ok ht]
      rcases hf a (hy _ _ _ _ hs) s₁ t₁ h₁ with ⟨hs', ht'⟩ | ⟨r, s₂, t₂, l', hs', ht', h₂⟩
      · rw [hs', ht']
        exact Or.inl ⟨rfl, rfl⟩
      · rw [hs', ht']
        exact Or.inr ⟨r, s₂, t₂, _, rfl, rfl, h₂⟩

theorem sim_bind {f : α → Prog S E ε β} {g : α → Prog T E ε β} (hx : Sim R x y) (hf : ∀ a, Sim R (f a) (g a)) :
    Sim R (x >>= f) (y >>= g) :=
  sim_bind_of_yields hx (fun _ _ _ _ _ => trivial) fun a _ => hf a

theorem sim_attempt (hx : Sim R x y) : Sim R x.attempt y.attempt := by
  intro s t h
  rcases hx s t h with ⟨hs, ht⟩ | ⟨r, s₁, t₁, l, hs, ht, h₁⟩
  · refine Or.inl ⟨?_, ?_⟩
    · unfold attempt
      rw [hs]
    · unfold attempt
      rw [ht]
  · exact Or.inr ⟨_, s₁, t₁, _, attempt_of_some hs, attempt_of_some ht, h₁⟩

theorem sim_enclose {wrap : List E → Except ε α → E} (hx : Sim R x y) : Sim R (enclose wrap x) (enclose wrap y) := by
  intro s t h
  rcases hx s t h with ⟨hs, ht⟩ | ⟨r, s₁, t₁, l, hs, ht, h₁⟩
  · refine Or.inl ⟨?_, ?_⟩
    · unfold enclose
      rw [hs]
    · unfold enclose
      rw [ht]
  · exact Or.inr ⟨_, s₁, t₁, _, enclose_of_some hs, enclose_of_some ht, h₁⟩

theorem sim_within {Q : S → T → Prop} {enter : S → S} {leave : S → S → S} {enter' : T → T} {leave' : T → T → T}
    (hx : Sim Q x y) (he : ∀ s t, R s t → Q (enter s) (enter' t))
    (hl : ∀ s t s' t', R s t → Q s' t' → R (leave s s') (leave' t t')) : Sim R (within enter leave x) (within enter' leave' y) := by
  intro s t h
  rcases hx _ _ (he s t h) with ⟨hs, ht⟩ | ⟨r, s₁, t₁, l, hs, ht, h₁⟩
  · refine Or.inl ⟨?_, ?_⟩
    · unfold within
      rw [hs]
    · unfold within
      rw [ht]
  · exact Or.inr ⟨r, _, _, l, within_of_some hs, within_of_some ht, hl _ _ _ _ h h₁⟩

end Sim

/-! ## Runs put together -/

/-- From a state the computation ends with an outcome in another. -/
def Ends (x : Prog S E ε α) (s : S) (r : Except ε α) (s' : S) : Prop := ∃ l, x s = some (r, s', l)

section Ends

variable {x : Prog S E ε α} {s s₁ s₂ : S}

theorem ends_pure (a : α) (s : S) : Ends (pure a : Prog S E ε α) s (.ok a) s := ⟨_, pure_apply a s⟩

theorem ends_gets (f : S → α) (s : S) : Ends (gets f : Prog S E ε α) s (.ok (f s)) s := ⟨_, gets_apply f s⟩

theorem ends_modify (f : S → S) (s : S) : Ends (modify f : Prog S E ε Unit) s (.ok ()) (f s) := ⟨_, modify_apply f s⟩

theorem ends_update (f : S → α × S) (s : S) : Ends (update f : Prog S E ε α) s (.ok (f s).1) (f s).2 := ⟨_, update_apply f s⟩

theorem ends_emit (e : E) (s : S) : Ends (emit e : Prog S E ε Unit) s (.ok ()) s := ⟨_, emit_apply e s⟩

theorem ends_ofExcept (o : Except ε α) (s : S) : Ends (ofExcept o : Prog S E ε α) s o s := by
  cases o with
  | ok a => exact ⟨_, rfl⟩
  | error e => exact ⟨_, rfl⟩

theorem Ends.bind {f : α → Prog S E ε β} {a : α} {r : Except ε β} (hx : Ends x s (.ok a) s₁) (hf : Ends (f a) s₁ r s₂) :
    Ends (x >>= f) s r s₂ := by
  obtain ⟨l₁, hx⟩ := hx
  obtain ⟨l₂, hf⟩ := hf
  refine ⟨l₁ ++ l₂, ?_⟩
  rw [bind_of_ok hx, hf, logged_some]

theorem Ends.bind_error {f : α → Prog S E ε β} {e : ε} (hx : Ends x s (.error e) s₁) : Ends (x >>= f) s (.error e) s₁ := by
  obtain ⟨l, hx⟩ := hx
  exact ⟨l, bind_of_error hx⟩

theorem Ends.attempt {r : Except ε α} (hx : Ends x s r s₁) : Ends x.attempt s (.ok r) s₁ := by
  obtain ⟨l, hx⟩ := hx
  exact ⟨l, attempt_of_some hx⟩

theorem Ends.enclose {wrap : List E → Except ε α → E} {r : Except ε α} (hx : Ends x s r s₁) :
    Ends (Prog.enclose wrap x) s r s₁ := by
  obtain ⟨l, hx⟩ := hx
  exact ⟨_, enclose_of_some hx⟩

theorem Ends.within {enter : S → S} {leave : S → S → S} {r : Except ε α} (hx : Ends x (enter s) r s₁) :
    Ends (Prog.within enter leave x) s r (leave s s₁) := by
  obtain ⟨l, hx⟩ := hx
  exact ⟨l, within_of_some hx⟩

/-- A computation ends in one way. -/
theorem Ends.unique {r₁ r₂ : Except ε α} (h₁ : Ends x s r₁ s₁) (h₂ : Ends x s r₂ s₂) : r₁ = r₂ ∧ s₁ = s₂ := by
  obtain ⟨l₁, h₁⟩ := h₁
  obtain ⟨l₂, h₂⟩ := h₂
  rw [h₁] at h₂
  cases h₂
  exact ⟨rfl, rfl⟩

/-- A blind computation ends alike from related states. -/
theorem Ends.of_blind {R : S → S → Prop} {r : Except ε α} {t : S} (hx : Ends x s r s₁) (hblind : Blind R x) (hst : R s t) :
    ∃ t₁, Ends x t r t₁ ∧ R s₁ t₁ := by
  obtain ⟨l, hx⟩ := hx
  rcases hblind s t hst with ⟨hnone, -⟩ | ⟨r', s', t', l', hs, ht, hrel⟩
  · rw [hnone] at hx
    cases hx
  · rw [hs] at hx
    cases hx
    exact ⟨t', ⟨l, ht⟩, hrel⟩

end Ends

end Prog
