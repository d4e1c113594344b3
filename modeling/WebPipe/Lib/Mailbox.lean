import Mathlib.Data.List.Induction

/-!
# Things held under names

A mailbox holds at most one thing under each name: putting a thing replaces what was there, taking names empties them. What is held
follows from the operations so far: under a name it is what was last put there, unless the name was taken since.
-/

namespace Mailbox

variable {κ τ : Type*}

/-- An operation on a mailbox. -/
inductive Op (κ τ : Type*) where
  | put (name : κ) (thing : τ)
  | take (names : List κ)

/-- The operation changes what is held under the name. -/
def Op.Touches (name : κ) : Op κ τ → Prop
  | .put k _ => k = name
  | .take ks => name ∈ ks

variable [DecidableEq κ]

/-- What is held under a name after an operation. -/
def apply (held : κ → Option τ) : Op κ τ → κ → Option τ
  | .put k t => fun k' => if k' = k then some t else held k'
  | .take ks => fun k' => if k' ∈ ks then none else held k'

/-- What is held after operations on a mailbox. -/
def heldFrom (held : κ → Option τ) (ops : List (Op κ τ)) : κ → Option τ := ops.foldl apply held

/-- What is held after operations on an empty mailbox. -/
def held (ops : List (Op κ τ)) : κ → Option τ := heldFrom (fun _ => none) ops

theorem heldFrom_append (held : κ → Option τ) (a b : List (Op κ τ)) : heldFrom held (a ++ b) = heldFrom (heldFrom held a) b :=
  List.foldl_append

theorem held_append (a b : List (Op κ τ)) : held (a ++ b) = heldFrom (held a) b := heldFrom_append _ a b

/-- An operation leaves the names that it does not touch. -/
theorem apply_of_not_touches {held : κ → Option τ} {op : Op κ τ} {name : κ} (h : ¬ op.Touches name) :
    apply held op name = held name := by
  cases op with
  | put k t => exact if_neg fun e => h e.symm
  | take ks => exact if_neg h

theorem heldFrom_of_not_touches {held : κ → Option τ} {ops : List (Op κ τ)} {name : κ}
    (h : ∀ op ∈ ops, ¬ op.Touches name) : heldFrom held ops name = held name := by
  induction ops generalizing held with
  | nil => rfl
  | cons op ops ih =>
    change heldFrom (apply held op) ops name = _
    rw [ih fun o ho => h o (List.mem_cons_of_mem _ ho), apply_of_not_touches (h op List.mem_cons_self)]

/-- A thing stays where it was put until its name is touched. -/
theorem held_put {a b : List (Op κ τ)} {name : κ} (t : τ) (h : ∀ op ∈ b, ¬ op.Touches name) :
    held (a ++ .put name t :: b) name = some t := by
  rw [held_append]
  change heldFrom (apply (held a) (.put name t)) b name = _
  rw [heldFrom_of_not_touches h]
  exact if_pos rfl

/-- What is held under a name is what was last put there, with the name untouched since. -/
theorem held_eq_some_iff {ops : List (Op κ τ)} {name : κ} {t : τ} :
    held ops name = some t ↔ ∃ a b, ops = a ++ .put name t :: b ∧ ∀ op ∈ b, ¬ op.Touches name := by
  constructor
  · intro h
    induction ops using List.reverseRecOn with
    | nil => cases h
    | append_singleton ops op ih =>
      rw [held_append] at h
      change apply (held ops) op name = some t at h
      by_cases htouch : op.Touches name
      · cases op with
        | put k u =>
          obtain rfl : k = name := htouch
          obtain rfl : u = t := Option.some.inj ((if_pos rfl).symm.trans h)
          exact ⟨ops, [], rfl, nofun⟩
        | take ks =>
          have hnone : apply (held ops) (.take ks) name = none := if_pos htouch
          rw [hnone] at h
          cases h
      · rw [apply_of_not_touches htouch] at h
        obtain ⟨a, b, rfl, hb⟩ := ih h
        refine ⟨a, b ++ [op], by simp, fun o ho => ?_⟩
        rcases List.mem_append.mp ho with ho | ho
        · exact hb o ho
        · exact List.mem_singleton.mp ho ▸ htouch
  · rintro ⟨a, b, rfl, hb⟩
    exact held_put t hb

/-- Where nothing is put under a name that is held, what is held was put there with the name not taken since. -/
theorem held_eq_some_iff_of_fresh {ops : List (Op κ τ)} (hfresh : ∀ a k u b, ops = a ++ .put k u :: b → held a k = none) {name : κ}
    {t : τ} :
    held ops name = some t ↔ ∃ a b, ops = a ++ .put name t :: b ∧ ∀ ks, .take ks ∈ b → name ∉ ks := by
  rw [held_eq_some_iff]
  constructor
  · rintro ⟨a, b, rfl, hb⟩
    exact ⟨a, b, rfl, fun ks hks => hb _ hks⟩
  · rintro ⟨a, b, rfl, hb⟩
    refine ⟨a, b, rfl, ?_⟩
    -- the first later operation on the name would put something where the thing still is
    induction b using List.reverseRecOn with
    | nil => exact nofun
    | append_singleton b op ih =>
      have hrest : ∀ o ∈ b, ¬ o.Touches name := by
        refine ih (fun ks hks => hb ks (List.mem_append_left _ hks)) fun a' k u b' he => hfresh a' k u (b' ++ [op]) ?_
        rw [← List.cons_append, ← List.append_assoc, he]
        simp
      intro o ho
      rcases List.mem_append.mp ho with ho | ho
      · exact hrest o ho
      · have hlast : o = op := List.mem_singleton.mp ho
        subst hlast
        cases o with
        | put k u =>
          rintro rfl
          have hnone := hfresh (a ++ .put k t :: b) k u [] (by simp)
          rw [held_put t hrest] at hnone
          cases hnone
        | take ks => exact hb ks (List.mem_append_right _ List.mem_cons_self)

end Mailbox
