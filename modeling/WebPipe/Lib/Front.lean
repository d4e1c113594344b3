import Mathlib.Data.Finset.Card
import Mathlib.Data.List.Sort

/-!
# The front of a sorted list

The first items of a falling list are its greatest ones, so they are a given part of it exactly when that part stands above the rest.
-/

namespace Front

/-- Sorting by a key. -/
theorem pairwise_sorted {α β : Type*} [LinearOrder β] (key : α → β) (l : List α) :
    (l.insertionSort fun a b => key a ≤ key b).Pairwise fun a b => key a ≤ key b := by
  have : Std.Total fun a b : α => key a ≤ key b := ⟨fun a b => le_total (key a) (key b)⟩
  have : IsTrans α fun a b => key a ≤ key b := ⟨fun _ _ _ => le_trans⟩
  exact List.pairwise_insertionSort _ _

/-- A list that rises by a key with no key twice, sorted to fall by the key, is the list from its end. -/
theorem sorted_falling {α β : Type*} [LinearOrder β] {key : α → β} {l : List α}
    (hrises : l.Pairwise fun a b => key a ≤ key b) (hdistinct : (l.map key).Nodup) :
    (l.insertionSort fun a b => key b ≤ key a) = l.reverse := by
  have hperm : (l.insertionSort fun a b => key b ≤ key a).Perm l.reverse :=
    (List.perm_insertionSort _ l).trans l.reverse_perm.symm
  refine hperm.eq_of_pairwise ?_ (pairwise_sorted (fun a => OrderDual.toDual (key a)) l) (List.pairwise_reverse.mpr hrises)
  intro a b ha hb hab hba
  exact List.inj_on_of_nodup_map hdistinct (List.mem_reverse.mp (hperm.mem_iff.mp ha)) (List.mem_reverse.mp hb) (le_antisymm hba hab)

variable {α : Type*} [LinearOrder α] {l : List α}

/-- The front of a falling list stands above the rest. -/
theorem drop_lt_take (h : l.Pairwise (· > ·)) (k : ℕ) {a b : α} (ha : a ∈ l.drop k) (hb : b ∈ l.take k) : a < b := by
  rw [← List.take_append_drop k l] at h
  exact (List.pairwise_append.mp h).2.2 b hb a ha

/-- The front with as many items as a part of the list has that many different ones. -/
theorem card_take (h : l.Nodup) {J : Finset α} (hJ : ∀ j ∈ J, j ∈ l) : (l.take J.card).toFinset.card = J.card := by
  have hsub : J ⊆ l.toFinset := fun j hj => List.mem_toFinset.mpr (hJ j hj)
  have hcard := Finset.card_le_card hsub
  rw [List.toFinset_card_of_nodup h] at hcard
  rw [List.toFinset_card_of_nodup (h.sublist (List.take_sublist _ _)), List.length_take]
  omega

/-- A front inside a part with as many items is the part. -/
theorem mem_take_iff (h : l.Nodup) {J : Finset α} (hJ : ∀ j ∈ J, j ∈ l) (hfront : ∀ v ∈ l.take J.card, v ∈ J) (v : α) :
    v ∈ l.take J.card ↔ v ∈ J := by
  have hsub : (l.take J.card).toFinset ⊆ J := fun v hv => hfront v (List.mem_toFinset.mp hv)
  rw [← List.mem_toFinset, Finset.eq_of_subset_of_card_le hsub (card_take h hJ).ge]

/-- The front of a falling list is a part of it with as many items exactly when the part stands above everything else. -/
theorem take_subset_iff (h : l.Pairwise (· > ·)) {J : Finset α} (hJ : ∀ j ∈ J, j ∈ l) :
    (∀ v ∈ l.take J.card, v ∈ J) ↔ ∀ a ∈ l, a ∉ J → ∀ j ∈ J, a < j := by
  have hnodup : l.Nodup := h.imp fun hab => ne_of_gt hab
  constructor
  · intro hfrontJ a ha haJ j hj
    have hjfront : j ∈ l.take J.card := (mem_take_iff hnodup hJ hfrontJ j).mpr hj
    have harest : a ∈ l.drop J.card := by
      rw [← List.take_append_drop J.card l] at ha
      exact (List.mem_append.mp ha).resolve_left fun hfa => haJ (hfrontJ a hfa)
    exact drop_lt_take h _ harest hjfront
  · intro habove r hr
    by_contra hrJ
    -- some item of the part is not in the front, which has room for them all but holds another
    obtain ⟨j, hj, hjfront⟩ : ∃ j ∈ J, j ∉ l.take J.card := by
      by_contra hall
      push Not at hall
      have hsub : insert r J ⊆ (l.take J.card).toFinset := by
        intro v hv
        rcases Finset.mem_insert.mp hv with rfl | hvJ
        · exact List.mem_toFinset.mpr hr
        · exact List.mem_toFinset.mpr (hall v hvJ)
      have hcard := Finset.card_le_card hsub
      rw [Finset.card_insert_of_notMem hrJ, card_take hnodup hJ] at hcard
      omega
    have hjrest : j ∈ l.drop J.card := by
      have hjl := hJ j hj
      rw [← List.take_append_drop J.card l] at hjl
      exact (List.mem_append.mp hjl).resolve_left hjfront
    exact absurd (habove r (List.mem_of_mem_take hr) hrJ j hj) (drop_lt_take h _ hjrest hr).asymm

end Front
