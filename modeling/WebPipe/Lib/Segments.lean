import Mathlib.Data.List.Basic

/-!
# Reading a stream that comes in segments

The items of a stream arrive in segments, cut anywhere. A read of an exact number of items takes from as many segments as it needs; what
it returns depends only on the items in a row.
-/

namespace Segments

variable {α : Type*}

/-- Read an exact number of items. Nothing is read where there are fewer. -/
def readExact : Nat → List (List α) → Option (List α × List (List α))
  | 0, segments => some ([], segments)
  | _ + 1, [] => none
  | n + 1, first :: segments =>
    if n + 1 < first.length then some (first.take (n + 1), first.drop (n + 1) :: segments)
    else (readExact (n + 1 - first.length) segments).map fun p => (first ++ p.1, p.2)

/-- What is read and what is left are the stream. -/
theorem readExact_eq_some {n : Nat} {segments rest : List (List α)} {l : List α} (h : readExact n segments = some (l, rest)) :
    l.length = n ∧ l ++ rest.flatten = segments.flatten := by
  induction segments generalizing n l with
  | nil =>
    cases n with
    | zero =>
      cases h
      exact ⟨rfl, rfl⟩
    | succ n => cases h
  | cons first segments ih =>
    cases n with
    | zero =>
      cases h
      exact ⟨rfl, rfl⟩
    | succ n =>
      rw [readExact] at h
      split at h
      · next hlt =>
        cases h
        refine ⟨by rw [List.length_take]; omega, ?_⟩
        rw [List.flatten_cons, ← List.append_assoc, List.take_append_drop, List.flatten_cons]
      · next hle =>
        obtain ⟨⟨l', rest'⟩, hread, heq⟩ := Option.map_eq_some_iff.mp h
        simp only [Prod.mk.injEq] at heq
        obtain ⟨rfl, rfl⟩ := heq
        obtain ⟨hlength, hflatten⟩ := ih hread
        rw [List.flatten_cons, List.append_assoc, hflatten, List.length_append]
        exact ⟨by omega, rfl⟩

/-- A read succeeds where there are as many items. -/
theorem readExact_eq_none_iff {n : Nat} {segments : List (List α)} :
    readExact n segments = none ↔ segments.flatten.length < n := by
  induction segments generalizing n with
  | nil => cases n <;> simp [readExact]
  | cons first segments ih =>
    cases n with
    | zero => simp [readExact]
    | succ n =>
      rw [readExact, List.flatten_cons, List.length_append]
      split
      · next hlt => simp; omega
      · next hle =>
        rw [Option.map_eq_none_iff, ih]
        omega

/-- The items that the stream starts with are read, wherever it is cut. -/
theorem readExact_append {segments : List (List α)} {l r : List α} (h : segments.flatten = l ++ r) :
    ∃ rest, readExact l.length segments = some (l, rest) ∧ rest.flatten = r := by
  have hsome : readExact l.length segments ≠ none := by
    rw [ne_eq, readExact_eq_none_iff, h, List.length_append]
    omega
  obtain ⟨⟨l', rest⟩, hread⟩ := Option.ne_none_iff_exists'.mp hsome
  obtain ⟨hlength, hflatten⟩ := readExact_eq_some hread
  obtain ⟨rfl, hrest⟩ := List.append_inj (hflatten.trans h) hlength
  exact ⟨rest, hread, hrest⟩

end Segments
