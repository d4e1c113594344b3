import Mathlib.Order.Lattice

/-!
# Maps whose values expire

A value is fresh until one instant and stale until a second; after that it is gone. The map is unbounded and remembers the
last value recorded for each key. A cache over it may forget a key at any time, and may not do anything else: `Permits` says
what it may answer.
-/

namespace Ttl

variable {κ ν T : Type*} [LinearOrder T]

/-- A value with its two deadlines, in order. -/
structure Slot (ν T : Type*) [LinearOrder T] where
  value : ν
  freshUntil : T
  staleUntil : T
  ordered : freshUntil ≤ staleUntil

/-- The last value recorded for each key. -/
abbrev TtlMap (κ ν T : Type*) [LinearOrder T] := κ → Option (Slot ν T)

/-- What a cache over such a map can answer. -/
inductive Answer (ν : Type*) where
  | fresh (value : ν)
  | stale (value : ν)
  | miss

/-- The map that holds nothing. -/
def empty : TtlMap κ ν T := fun _ => none

/-- Record a value for a key, over any earlier one. -/
def record [DecidableEq κ] (m : TtlMap κ ν T) (k : κ) (slot : Slot ν T) : TtlMap κ ν T :=
  fun k' => if k' = k then some slot else m k'

@[simp] theorem record_self [DecidableEq κ] (m : TtlMap κ ν T) (k : κ) (slot : Slot ν T) :
    record m k slot k = some slot := if_pos rfl

theorem record_of_ne [DecidableEq κ] {m : TtlMap κ ν T} {k k' : κ} {slot : Slot ν T} (h : k' ≠ k) :
    record m k slot k' = m k' := if_neg h

/-- The answers the map permits at an instant: the last value of the key while it is fresh or stale, or that the key is not
there. -/
def Permits (m : TtlMap κ ν T) (now : T) (k : κ) : Answer ν → Prop
  | .fresh v => ∃ slot, m k = some slot ∧ slot.value = v ∧ now < slot.freshUntil
  | .stale v => ∃ slot, m k = some slot ∧ slot.value = v ∧ slot.freshUntil ≤ now ∧ now < slot.staleUntil
  | .miss => True

/-- After the second deadline the map permits no value. -/
theorem Permits.miss_of_expired {m : TtlMap κ ν T} {now : T} {k : κ} {a : Answer ν} (h : Permits m now k a)
    {slot : Slot ν T} (hk : m k = some slot) (hs : slot.staleUntil ≤ now) : a = .miss := by
  cases a with
  | fresh v =>
    obtain ⟨slot', hk', -, hlt⟩ := h
    rw [hk] at hk'
    cases hk'
    exact absurd hlt (not_lt.mpr (le_trans slot.ordered hs))
  | stale v =>
    obtain ⟨slot', hk', -, -, hlt⟩ := h
    rw [hk] at hk'
    cases hk'
    exact absurd hlt (not_lt.mpr hs)
  | miss => rfl

end Ttl
