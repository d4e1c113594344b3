import Mathlib.Data.List.Nodup
import WebPipe.Lib.IndexMap

/-!
# Maps that are entered pair by pair

A map that was empty holds for each key the last pair that was entered under it: the first one from the end. Where the pairs come
from several owners, and the keys of an owner are its own, what the owner entered decides.
-/

namespace IndexMap

variable {ι κ ν : Type*} [DecidableEq κ]

theorem get_append (a b : List (κ × ν)) (k : κ) : get (a ++ b) k = (get a k).or (get b k) := by
  induction a with
  | nil => simp
  | cons p a ih =>
    rw [List.cons_append, get, get, ih]
    split <;> rfl

/-- What a map holds was entered. -/
theorem mem_of_get {m : List (κ × ν)} {k : κ} {v : ν} (h : get m k = some v) : (k, v) ∈ m := by
  induction m with
  | nil => cases h
  | cons p m ih =>
    obtain ⟨a, w⟩ := p
    rw [get] at h
    split at h
    · next heq =>
      cases h
      rw [heq]
      exact List.mem_cons_self
    · exact List.mem_cons_of_mem _ (ih h)

/-- What is entered last under a key counts. -/
theorem get_insertAll_eq (m new : List (κ × ν)) (k : κ) : get (insertAll m new) k = (get new.reverse k).or (get m k) := by
  induction new generalizing m with
  | nil => rfl
  | cons p new ih =>
    obtain ⟨a, v⟩ := p
    rw [insertAll_cons, ih, get_insert, List.reverse_cons, get_append, Option.or_assoc]
    by_cases h : k = a
    · simp [get, h]
    · simp [get, h, Ne.symm h]

theorem get_insertAll_nil (new : List (κ × ν)) (k : κ) : get (insertAll [] new) k = get new.reverse k := by
  rw [get_insertAll_eq, get_nil, Option.or_none]

theorem get_reverse_append (a b : List (κ × ν)) (k : κ) : get (a ++ b).reverse k = (get b.reverse k).or (get a.reverse k) := by
  rw [List.reverse_append, get_append]

theorem get_reverse_eq_none_iff {m : List (κ × ν)} {k : κ} : get m.reverse k = none ↔ k ∉ m.map Prod.fst := by
  rw [get_eq_none_iff, List.map_reverse, List.mem_reverse]

/-- A map whose keys are distinct is the same from the end. -/
theorem get_reverse {m : List (κ × ν)} (hm : Distinct m) (k : κ) : get m.reverse k = get m k := by
  have hreverse : Distinct m.reverse := by
    unfold Distinct
    rw [List.map_reverse, List.nodup_reverse]
    exact hm
  refine Option.ext fun v => ?_
  rw [get_eq_some_iff hm, get_eq_some_iff hreverse, List.mem_reverse]

/-- Other keys for the same pairs. -/
theorem get_map_of_injective {μ : Type*} [DecidableEq μ] {f : κ → μ} (hf : Function.Injective f) (m : List (κ × ν)) (k : κ) :
    get (m.map fun p => (f p.1, p.2)) (f k) = get m k := by
  induction m with
  | nil => rfl
  | cons p m ih =>
    rw [List.map_cons, get, get, ih]
    simp only [hf.eq_iff]

/-- Of several owners the one decides whose key it is. -/
theorem get_reverse_flatMap {entries : ι → List (κ × ν)} {owners : List ι} {owner : ι} {k : κ} (howner : owner ∈ owners)
    (hother : ∀ o ∈ owners, o ≠ owner → k ∉ (entries o).map Prod.fst) :
    get (owners.flatMap entries).reverse k = get (entries owner).reverse k := by
  induction owners with
  | nil => cases howner
  | cons o owners ih =>
    rw [List.flatMap_cons, get_reverse_append]
    by_cases hin : owner ∈ owners
    · rw [ih hin fun o' ho' => hother o' (List.mem_cons_of_mem _ ho')]
      by_cases heq : o = owner
      · rw [heq, Option.or_self]
      · rw [get_reverse_eq_none_iff.mpr (hother o List.mem_cons_self heq), Option.or_none]
    · have heq : o = owner := ((List.mem_cons.mp howner).resolve_right hin).symm
      have hnone : get (owners.flatMap entries).reverse k = none := by
        rw [get_reverse_eq_none_iff]
        intro hk
        obtain ⟨p, hp, rfl⟩ := List.mem_map.mp hk
        obtain ⟨o', ho', hp⟩ := List.mem_flatMap.mp hp
        have hne : o' ≠ owner := fun e => hin (e ▸ ho')
        exact hother o' (List.mem_cons_of_mem _ ho') hne (List.mem_map_of_mem hp)
      rw [hnone, Option.none_or, heq]

/-- Values that are replaced, or left out with their keys. -/
theorem get_filterMap {μ : Type*} (f : ν → Option μ) {m : List (κ × ν)} (hm : Distinct m) (k : κ) :
    get (m.filterMap fun p => (f p.2).map fun w => (p.1, w)) k = (get m k).bind f := by
  induction m with
  | nil => rfl
  | cons p m ih =>
    obtain ⟨a, v⟩ := p
    obtain ⟨hnot, hrest⟩ := distinct_cons.mp hm
    rw [List.filterMap_cons, get]
    by_cases h : a = k
    · subst h
      have hnone : get m a = none := get_eq_none_iff.mpr hnot
      cases hv : f v with
      | none => simp [hv, ih hrest, hnone]
      | some w => simp [hv, get]
    · cases hv : f v with
      | none => simp [ih hrest, h]
      | some w => simp [get, h, ih hrest]

/-- Things numbered in their order. -/
theorem get_zipIdx {l : List κ} (hl : l.Nodup) {a : κ} {i : ℕ} : get l.zipIdx a = some i ↔ l[i]? = some a := by
  have hdistinct : Distinct l.zipIdx := by
    unfold Distinct
    rwa [List.zipIdx_map_fst]
  rw [get_eq_some_iff hdistinct, List.mk_mem_zipIdx_iff_getElem?]

end IndexMap
