import WebPipe.Lib.IndexMap

/-!
# Hash maps whose order is read

A hash map is its pairs in the order it enumerates them. Two maps of the same pairs can enumerate them in any two orders, so a
search that takes the first pair to match can end in any of those that match, and in no other.
-/

/-- A hash map, in the order it enumerates its pairs. -/
structure HashTable (κ ν : Type*) where
  entries : List (κ × ν)
  distinct : IndexMap.Distinct entries

namespace HashTable

variable {κ ν : Type*}

/-- `HashMap::new`. -/
def empty : HashTable κ ν := { entries := [], distinct := List.nodup_nil }

/-- The same pairs, in another order. -/
def Reorders (t t' : HashTable κ ν) : Prop := t.entries.Perm t'.entries

theorem Reorders.refl (t : HashTable κ ν) : Reorders t t := List.Perm.refl _

theorem Reorders.mem_iff {t t' : HashTable κ ν} (h : Reorders t t') (e : κ × ν) : e ∈ t.entries ↔ e ∈ t'.entries := List.Perm.mem_iff h

/-- Every pair comes first in some order. -/
theorem exists_front {t : HashTable κ ν} {e : κ × ν} (h : e ∈ t.entries) : ∃ t', Reorders t' t ∧ ∃ l, t'.entries = e :: l := by
  obtain ⟨a, b, hab⟩ := List.append_of_mem h
  have hperm : (e :: (a ++ b)).Perm t.entries := by
    rw [hab]
    exact List.perm_middle.symm
  exact ⟨⟨e :: (a ++ b), ((hperm.map Prod.fst).nodup_iff).mpr t.distinct⟩, hperm, a ++ b, rfl⟩

/-- What holds of the first match in every order holds of every match. -/
theorem forall_find_iff {t : HashTable κ ν} {p : κ × ν → Bool} {q : κ × ν → Prop} :
    (∀ t', Reorders t' t → ∀ e, t'.entries.find? p = some e → q e) ↔ ∀ e ∈ t.entries, p e = true → q e := by
  constructor
  · intro h e he hp
    obtain ⟨t', hreorders, l, hl⟩ := exists_front he
    exact h t' hreorders e (by rw [hl, List.find?_cons_of_pos hp])
  · intro h t' hreorders e hfind
    exact h e ((hreorders.mem_iff e).mp (List.mem_of_find?_eq_some hfind)) (List.find?_some hfind)

/-- A pair is the first match in every order when it is the only one. -/
theorem forall_find_eq_iff {t : HashTable κ ν} {p : κ × ν → Bool} {e : κ × ν} (he : e ∈ t.entries) (hp : p e = true) :
    (∀ t', Reorders t' t → t'.entries.find? p = some e) ↔ ∀ e' ∈ t.entries, p e' = true → e' = e := by
  rw [← forall_find_iff]
  constructor
  · intro h t' hreorders e' hfind
    exact Option.some.inj (hfind.symm.trans (h t' hreorders))
  · intro h t' hreorders
    cases hfind : t'.entries.find? p with
    | some e' => rw [h t' hreorders e' hfind]
    | none => exact absurd hp (List.find?_eq_none.mp hfind e ((hreorders.mem_iff e).mpr he))

/-- Whether anything matches does not depend on the order. -/
theorem Reorders.find_eq_none {t t' : HashTable κ ν} (h : Reorders t t') {p : κ × ν → Bool} (hnone : t'.entries.find? p = none) :
    t.entries.find? p = none := by
  rw [List.find?_eq_none] at hnone ⊢
  intro e he
  exact hnone e ((h.mem_iff e).mp he)

/-- A search that only one pair matches ends in it in every order. -/
theorem Reorders.find_eq {t t' : HashTable κ ν} (h : Reorders t' t) {p : κ × ν → Bool}
    (hunique : ∀ e ∈ t.entries, p e = true → ∀ e' ∈ t.entries, p e' = true → e' = e) :
    t'.entries.find? p = t.entries.find? p := by
  cases hfind : t.entries.find? p with
  | none => exact h.find_eq_none hfind
  | some e =>
    have he := List.mem_of_find?_eq_some hfind
    have hp := List.find?_some hfind
    exact (forall_find_eq_iff he hp).mpr (hunique e he hp) t' h

variable [DecidableEq κ]

/-- Read the value of a key. -/
def get (t : HashTable κ ν) (k : κ) : Option ν := IndexMap.get t.entries k

/-- Insert a pair. -/
def insert (t : HashTable κ ν) (k : κ) (v : ν) : HashTable κ ν :=
  { entries := IndexMap.insert t.entries k v, distinct := t.distinct.insert k v }

/-- `extend`: insert every pair of another map. -/
def extend (t other : HashTable κ ν) : HashTable κ ν :=
  { entries := IndexMap.insertAll t.entries other.entries, distinct := t.distinct.insertAll other.entries }

theorem get_eq_some_iff {t : HashTable κ ν} {k : κ} {v : ν} : t.get k = some v ↔ (k, v) ∈ t.entries :=
  IndexMap.get_eq_some_iff t.distinct

theorem get_insert (t : HashTable κ ν) (k k' : κ) (v : ν) : (t.insert k v).get k' = if k' = k then some v else t.get k' :=
  IndexMap.get_insert t.entries k k' v

/-- The entries of the other table take precedence. -/
theorem get_extend (t other : HashTable κ ν) (k : κ) : (t.extend other).get k = (other.get k).or (t.get k) :=
  IndexMap.get_insertAll other.distinct k

/-- Reading a key does not depend on the order. -/
theorem Reorders.get_eq {t t' : HashTable κ ν} (h : Reorders t t') (k : κ) : t.get k = t'.get k := by
  apply Option.ext
  intro v
  simp only [get_eq_some_iff]
  exact h.mem_iff (k, v)

end HashTable
