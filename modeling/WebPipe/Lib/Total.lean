import WebPipe.Lib.Prog

/-!
# Computations that end

`Total`: from every state the computation ends, with a result or a failure. A loop or a recursion that only runs total computations is
total; what it needs of fuel is then what these need.
-/

namespace Prog

universe u

variable {S E ε : Type*} {α β : Type u} {x : Prog S E ε α}

/-- From every state the computation ends. -/
def Total (x : Prog S E ε α) : Prop := ∀ s, ∃ r s' l, x s = some (r, s', l)

theorem total_pure (a : α) : Total (pure a : Prog S E ε α) := fun _ => ⟨_, _, _, rfl⟩

theorem total_fail (e : ε) : Total (fail e : Prog S E ε α) := fun _ => ⟨_, _, _, rfl⟩

theorem total_gets (f : S → α) : Total (gets f : Prog S E ε α) := fun _ => ⟨_, _, _, rfl⟩

theorem total_modify (f : S → S) : Total (modify f : Prog S E ε Unit) := fun _ => ⟨_, _, _, rfl⟩

theorem total_update (f : S → α × S) : Total (update f : Prog S E ε α) := fun _ => ⟨_, _, _, rfl⟩

theorem total_emit (e : E) : Total (emit e : Prog S E ε Unit) := fun _ => ⟨_, _, _, rfl⟩

theorem total_emitAll (l : List E) : Total (emitAll l : Prog S E ε Unit) := fun _ => ⟨_, _, _, rfl⟩

theorem total_ofExcept (o : Except ε α) : Total (ofExcept o : Prog S E ε α) := by
  cases o with
  | ok a => exact total_pure a
  | error e => exact total_fail e

/-- A sequence is total when its parts are. -/
theorem total_bind {f : α → Prog S E ε β} (hx : Total x) (hf : ∀ a, Total (f a)) : Total (x >>= f) := by
  intro s
  obtain ⟨_ | a, s₁, l₁, hs⟩ := hx s
  · exact ⟨_, _, _, bind_of_error hs⟩
  · obtain ⟨r, s₂, l₂, hs'⟩ := hf a s₁
    refine ⟨r, s₂, l₁ ++ l₂, ?_⟩
    rw [bind_of_ok hs, hs', logged_some]

theorem total_attempt (hx : Total x) : Total x.attempt := by
  intro s
  obtain ⟨r, s₁, l, hs⟩ := hx s
  exact ⟨_, _, _, attempt_of_some hs⟩

theorem total_enclose {wrap : List E → Except ε α → E} (hx : Total x) : Total (enclose wrap x) := by
  intro s
  obtain ⟨r, s₁, l, hs⟩ := hx s
  exact ⟨_, _, _, enclose_of_some hs⟩

theorem total_within {enter : S → S} {leave : S → S → S} (hx : Total x) : Total (within enter leave x) := by
  intro s
  obtain ⟨r, s₁, l, hs⟩ := hx (enter s)
  exact ⟨_, _, _, within_of_some hs⟩

/-- The computation, with an end of its own where it has none. -/
def orEnd (x : Prog S E ε α) (e : ε) : Prog S E ε α := fun s => some ((x s).getD (.error e, s, []))

/-- A program that is given an end is total. -/
theorem total_orEnd (x : Prog S E ε α) (e : ε) : Total (x.orEnd e) := fun _ => ⟨_, _, _, rfl⟩

/-- One that ends by itself ends so. -/
theorem orEnd_of_some {e : ε} {s s₁ : S} {r : Except ε α} {l : List E} (h : x s = some (r, s₁, l)) :
    x.orEnd e s = some (r, s₁, l) := by
  unfold orEnd
  rw [h]
  rfl

end Prog
