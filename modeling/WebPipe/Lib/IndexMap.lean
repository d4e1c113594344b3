import Mathlib.Algebra.Group.Int.Defs
import Mathlib.Algebra.Group.Nat.Defs
import Mathlib.Algebra.GroupWithZero.Nat
import Mathlib.Data.List.Basic

/-!
# Maps that keep insertion order

A map is a list of pairs of pairwise distinct keys. Inserting under a resident key replaces the value in place; a new key goes
to the end. Removing a key moves the last pair into its place. A hash map, whose order nobody reads, is the same list.
-/

namespace IndexMap

variable {κ ν : Type*} [DecidableEq κ]

/-- Read the value of a key. -/
def get : List (κ × ν) → κ → Option ν
  | [], _ => none
  | (k', v) :: rest, k => if k' = k then some v else get rest k

/-- Insert a pair: in the place of the old one, or at the end. -/
def insert : List (κ × ν) → κ → ν → List (κ × ν)
  | [], k, v => [(k, v)]
  | (k', v') :: rest, k, v => if k' = k then (k, v) :: rest else (k', v') :: insert rest k v

/-- Insert every pair of the second map into the first, in order. -/
def insertAll (m : List (κ × ν)) (new : List (κ × ν)) : List (κ × ν) :=
  new.foldl (fun m kv => insert m kv.1 kv.2) m

/-- Remove a key; the last pair takes its place. -/
def swapRemove (m : List (κ × ν)) (k : κ) : List (κ × ν) :=
  match m.findIdx? (fun p => decide (p.1 = k)) with
  | none => m
  | some i =>
    match m.getLast? with
    | none => m
    | some p => (m.set i p).dropLast

/-- Update the value of a key, if it is resident. -/
def modify (m : List (κ × ν)) (k : κ) (f : ν → ν) : List (κ × ν) :=
  m.map (fun p => if p.1 = k then (p.1, f p.2) else p)

@[simp] theorem get_nil (k : κ) : get ([] : List (κ × ν)) k = none := rfl

/-- An inserted value is under its key, and the others stay. -/
theorem get_insert (m : List (κ × ν)) (k k' : κ) (v : ν) :
    get (insert m k v) k' = if k' = k then some v else get m k' := by
  induction m with
  | nil =>
    by_cases h : k' = k
    · simp [insert, get, h]
    · simp [insert, get, h, Ne.symm h]
  | cons p rest ih =>
    obtain ⟨a, b⟩ := p
    by_cases ha : a = k
    · subst ha
      by_cases h : k' = a
      · simp [insert, get, h]
      · simp [insert, get, h, Ne.symm h]
    · by_cases h : a = k'
      · subst h
        simp [insert, get, ha]
      · simp [insert, get, ha, h, ih]

@[simp] theorem get_insert_self (m : List (κ × ν)) (k : κ) (v : ν) : get (insert m k v) k = some v := by
  simp [get_insert]

theorem get_insert_of_ne (m : List (κ × ν)) {k k' : κ} (v : ν) (h : k' ≠ k) : get (insert m k v) k' = get m k' := by
  simp [get_insert, h]

theorem insertAll_cons (m : List (κ × ν)) (p : κ × ν) (new : List (κ × ν)) :
    insertAll m (p :: new) = insertAll (insert m p.1 p.2) new := rfl

theorem insertAll_append (m a b : List (κ × ν)) : insertAll m (a ++ b) = insertAll (insertAll m a) b :=
  List.foldl_append

/-- Inserting pairs under other keys leaves a key. -/
theorem get_insertAll_of_not_mem {new : List (κ × ν)} {k : κ} (h : k ∉ new.map Prod.fst) (m : List (κ × ν)) :
    get (insertAll m new) k = get m k := by
  induction new generalizing m with
  | nil => rfl
  | cons p rest ih =>
    simp only [List.map_cons, List.mem_cons, not_or] at h
    rw [insertAll_cons, ih h.2, get_insert_of_ne _ _ h.1]

/-- Of the pairs under a key the last one counts. -/
theorem get_insertAll_of_last {m a b : List (κ × ν)} {k : κ} {v : ν} (h : k ∉ b.map Prod.fst) :
    get (insertAll m (a ++ (k, v) :: b)) k = some v := by
  rw [insertAll_append, insertAll_cons, get_insertAll_of_not_mem h, get_insert_self]

/-! ## Distinct keys -/

/-- The keys of a map are pairwise distinct. -/
def Distinct (m : List (κ × ν)) : Prop := (m.map Prod.fst).Nodup

omit [DecidableEq κ] in

/-- Keys are distinct when the first is not among the others. -/
theorem distinct_cons {p : κ × ν} {m : List (κ × ν)} : Distinct (p :: m) ↔ p.1 ∉ m.map Prod.fst ∧ Distinct m :=
  List.nodup_cons

theorem get_eq_none_iff {m : List (κ × ν)} {k : κ} : get m k = none ↔ k ∉ m.map Prod.fst := by
  induction m with
  | nil => simp
  | cons p rest ih =>
    obtain ⟨a, b⟩ := p
    by_cases h : a = k
    · simp [get, h]
    · simp [get, h, ih, Ne.symm h]

/-- With distinct keys the value of a key is the one that it stands with. -/
theorem get_eq_some_iff {m : List (κ × ν)} (hm : Distinct m) {k : κ} {v : ν} : get m k = some v ↔ (k, v) ∈ m := by
  induction m with
  | nil => simp
  | cons p rest ih =>
    obtain ⟨a, b⟩ := p
    obtain ⟨hnot, hrest⟩ := distinct_cons.mp hm
    by_cases h : a = k
    · subst h
      have hno : (a, v) ∉ rest := fun hin => hnot (List.mem_map.mpr ⟨_, hin, rfl⟩)
      simp [get, hno, eq_comm]
    · simp [get, h, ih hrest, Ne.symm h]

/-- A new key goes to the end. -/
theorem insert_of_get_none {m : List (κ × ν)} {k : κ} (h : get m k = none) (v : ν) : insert m k v = m ++ [(k, v)] := by
  induction m with
  | nil => rfl
  | cons p m ih =>
    obtain ⟨k', v'⟩ := p
    by_cases hk : k' = k
    · simp [get, hk] at h
    · simp only [get, hk, if_false] at h
      simp [insert, hk, ih h]

/-- A new key comes last. -/
theorem keys_insert (m : List (κ × ν)) (k : κ) (v : ν) :
    (insert m k v).map Prod.fst = if k ∈ m.map Prod.fst then m.map Prod.fst else m.map Prod.fst ++ [k] := by
  induction m with
  | nil => rfl
  | cons p rest ih =>
    obtain ⟨a, b⟩ := p
    by_cases h : a = k
    · simp [insert, h]
    · by_cases hk : k ∈ rest.map Prod.fst
      · rw [if_pos hk] at ih
        simp [insert, h, ih, hk]
      · rw [if_neg hk] at ih
        simp only [List.map_cons, List.mem_cons, hk, or_false, Ne.symm h, if_false, insert, h, ih, List.cons_append]

/-- Insertion keeps keys distinct. -/
theorem Distinct.insert {m : List (κ × ν)} (h : Distinct m) (k : κ) (v : ν) : Distinct (insert m k v) := by
  unfold Distinct
  rw [keys_insert]
  by_cases hk : k ∈ m.map Prod.fst
  · rw [if_pos hk]
    exact h
  · rw [if_neg hk]
    exact List.nodup_append.mpr ⟨h, by simp, fun a ha b hb => by
      rw [List.mem_singleton.mp hb]
      exact fun e => hk (e ▸ ha)⟩

/-- So do any number of insertions. -/
theorem Distinct.insertAll {m : List (κ × ν)} (h : Distinct m) (new : List (κ × ν)) : Distinct (insertAll m new) := by
  induction new generalizing m with
  | nil => exact h
  | cons p new ih => exact ih (h.insert p.1 p.2)

/-- Of two maps the second decides where it has the key. -/
theorem get_insertAll {m new : List (κ × ν)} (hnew : Distinct new) (k : κ) :
    get (insertAll m new) k = (get new k).or (get m k) := by
  induction new generalizing m with
  | nil => rfl
  | cons p new ih =>
    obtain ⟨a, b⟩ := p
    obtain ⟨hnot, hrest⟩ := distinct_cons.mp hnew
    rw [insertAll_cons, ih hrest, get_insert]
    by_cases h : a = k
    · subst h
      have hnone : get new a = none := get_eq_none_iff.mpr hnot
      simp [get, hnone]
    · simp [get, h, Ne.symm h]

/-- New distinct keys go to the end in their order. -/
theorem insertAll_of_distinct {m new : List (κ × ν)} (hnew : Distinct new) (h : ∀ p ∈ new, get m p.1 = none) :
    insertAll m new = m ++ new := by
  induction new generalizing m with
  | nil => simp [IndexMap.insertAll]
  | cons p new ih =>
    obtain ⟨a, b⟩ := p
    obtain ⟨hnot, hrest⟩ := distinct_cons.mp hnew
    rw [insertAll_cons, insert_of_get_none (h (a, b) List.mem_cons_self), ih hrest, List.append_assoc, List.singleton_append]
    intro p hp
    have hne : p.1 ≠ a := by
      intro heq
      exact hnot (List.mem_map.mpr ⟨p, hp, heq⟩)
    rw [← insert_of_get_none (h (a, b) List.mem_cons_self), get_insert_of_ne _ _ hne]
    exact h p (List.mem_cons_of_mem _ hp)

/-- Every key that is inserted is there. -/
theorem get_insertAll_ne_none {m new : List (κ × ν)} {k : κ} (h : k ∈ new.map Prod.fst) : get (insertAll m new) k ≠ none := by
  induction new generalizing m with
  | nil => cases h
  | cons p new ih =>
    rw [insertAll_cons]
    by_cases hmem : k ∈ new.map Prod.fst
    · exact ih hmem
    · have hk : k = p.1 := by
        rw [List.map_cons] at h
        exact (List.mem_cons.mp h).resolve_right hmem
      rw [get_insertAll_of_not_mem hmem, hk, get_insert_self]
      exact Option.some_ne_none _

/-- Changing the values. -/
theorem get_map {μ : Type*} (f : ν → μ) (m : List (κ × ν)) (k : κ) : get (m.map fun p => (p.1, f p.2)) k = (get m k).map f := by
  induction m with
  | nil => rfl
  | cons p m ih =>
    rw [List.map_cons, get, get]
    split
    · rfl
    · exact ih

/-- Removing a key takes its pair out, in another order. -/
theorem swapRemove_perm {m : List (κ × ν)} {k : κ} {v : ν} (hk : get m k = some v) :
    ((k, v) :: swapRemove m k).Perm m := by
  -- the pair stands between two parts; the last pair of the second part moves into its place
  have hsplit : ∃ a b, m = a ++ (k, v) :: b ∧ m.findIdx? (fun p => decide (p.1 = k)) = some a.length := by
    induction m with
    | nil => cases hk
    | cons p rest ih =>
      obtain ⟨x, y⟩ := p
      by_cases hx : x = k
      · subst hx
        rw [get, if_pos rfl] at hk
        cases hk
        exact ⟨[], rest, rfl, by simp [List.findIdx?_cons]⟩
      · rw [get, if_neg hx] at hk
        obtain ⟨a, b, rfl, hidx⟩ := ih hk
        exact ⟨(x, y) :: a, b, rfl, by simp [List.findIdx?_cons, hx, hidx]⟩
  obtain ⟨a, b, rfl, hidx⟩ := hsplit
  unfold swapRemove
  rw [hidx]
  rcases List.eq_nil_or_concat b with rfl | ⟨b, p, rfl⟩
  · simp only [List.getLast?_concat, List.set_append_right _ _ (Nat.le_refl _), Nat.sub_self, List.set_cons_zero,
      List.dropLast_concat]
    exact (List.perm_append_singleton (k, v) a).symm
  · rw [List.concat_eq_append]
    have hlast : (a ++ (k, v) :: (b ++ [p])).getLast? = some p := by
      rw [← List.cons_append, ← List.append_assoc, List.getLast?_concat]
    have hset : ((a ++ (k, v) :: (b ++ [p])).set a.length p).dropLast = a ++ p :: b := by
      rw [List.set_append_right _ _ (Nat.le_refl _), Nat.sub_self, List.set_cons_zero, ← List.cons_append, ← List.append_assoc,
        List.dropLast_concat]
    rw [hlast]
    dsimp only
    rw [hset]
    have hmove : (a ++ p :: b).Perm (a ++ (b ++ [p])) :=
      (List.Perm.refl a).append (List.perm_append_singleton p b).symm
    exact (hmove.cons (k, v)).trans List.perm_middle.symm

theorem swapRemove_of_none {m : List (κ × ν)} {k : κ} (hk : get m k = none) : swapRemove m k = m := by
  have hidx : m.findIdx? (fun p => decide (p.1 = k)) = none := by
    rw [List.findIdx?_eq_none_iff]
    intro p hp
    have hnot := get_eq_none_iff.mp hk
    exact decide_eq_false fun e => hnot (e ▸ List.mem_map_of_mem hp)
  unfold swapRemove
  rw [hidx]

/-- A modification leaves other keys alone. -/
theorem get_modify_of_ne (m : List (κ × ν)) (f : ν → ν) {k k' : κ} (h : k' ≠ k) : get (modify m k f) k' = get m k' := by
  induction m with
  | nil => rfl
  | cons p rest ih =>
    obtain ⟨a, b⟩ := p
    rw [modify, List.map_cons]
    change get ((if a = k then (a, f b) else (a, b)) :: modify rest k f) k' = _
    by_cases ha : a = k
    · subst ha
      rw [if_pos rfl, get, get, if_neg (Ne.symm h), if_neg (Ne.symm h), ih]
    · rw [if_neg ha, get, get, ih]

theorem Distinct.modify {m : List (κ × ν)} (h : Distinct m) (k : κ) (f : ν → ν) : Distinct (modify m k f) := by
  have hkeys : (IndexMap.modify m k f).map Prod.fst = m.map Prod.fst := by
    unfold IndexMap.modify
    rw [List.map_map]
    refine List.map_congr_left fun p _ => ?_
    dsimp only [Function.comp]
    split <;> rfl
  unfold Distinct
  rw [hkeys]
  exact h

theorem Distinct.swapRemove {m : List (κ × ν)} (h : Distinct m) (k : κ) : Distinct (swapRemove m k) := by
  cases hk : get m k with
  | none =>
    rw [swapRemove_of_none hk]
    exact h
  | some v => exact (distinct_cons.mp ((((swapRemove_perm hk).map Prod.fst).nodup_iff).mpr h)).2

/-- Removing a key leaves the others. -/
theorem get_swapRemove_of_ne {m : List (κ × ν)} (hm : Distinct m) {k k' : κ} (h : k' ≠ k) :
    get (swapRemove m k) k' = get m k' := by
  cases hk : get m k with
  | none => rw [swapRemove_of_none hk]
  | some v =>
    have hperm := swapRemove_perm hk
    refine Option.ext fun u => ?_
    rw [get_eq_some_iff (hm.swapRemove k), get_eq_some_iff hm, ← hperm.mem_iff, List.mem_cons]
    exact ⟨Or.inr, fun hin => hin.resolve_left fun e => h (congrArg Prod.fst e)⟩

end IndexMap
