import Mathlib.Algebra.BigOperators.Group.List.Basic
import Mathlib.Algebra.Group.Int.Defs
import Mathlib.Algebra.Group.Nat.Defs
import Mathlib.Algebra.GroupWithZero.Nat
import Mathlib.Data.List.Nodup

/-!
# Bounded maps with a recency order

A map of at most `cap` pairs that remembers in which order its keys were last used: `entries` holds the pairs, the least
recently used one first. The operations are those of the usual cache crates: a read that promotes, a read that does not, a
removal by key, a removal of the oldest pair, and an insertion that replaces the pair of a resident key and otherwise drops
the oldest pair when the map is full.

`weight w` sums a measure over the resident pairs; the lemmas about it say what each operation adds and removes.
-/

namespace Lru

variable {κ ν α : Type*}

/-- Pairs of pairwise distinct keys, least recently used first, at most `cap` of them. -/
structure LruCache (κ ν : Type*) where
  entries : List (κ × ν)
  cap : Nat
  cap_pos : 0 < cap
  nodup : (entries.map Prod.fst).Nodup
  bounded : entries.length ≤ cap

/-- The empty map of a given capacity. -/
def LruCache.new (cap : Nat) (h : 0 < cap) : LruCache κ ν :=
  { entries := [], cap := cap, cap_pos := h, nodup := List.nodup_nil, bounded := Nat.zero_le _ }

/-- The sum of a measure over the resident pairs. -/
def LruCache.weight (w : ν → Nat) (c : LruCache κ ν) : Nat :=
  (c.entries.map (fun p => w p.2)).sum

section Keys

variable [DecidableEq κ]

/-- The pairs of a list under other keys, in order. -/
def without (k : κ) (l : List (κ × ν)) : List (κ × ν) :=
  l.filter (fun p => decide (p.1 ≠ k))

/-- Read the value of a key; the order does not change. -/
def LruCache.peek (c : LruCache κ ν) (k : κ) : Option ν :=
  (c.entries.find? (fun p => decide (p.1 = k))).map Prod.snd

/-! ## Lists of pairs -/

/-- The entries under other keys. -/
theorem mem_without {k : κ} {l : List (κ × ν)} {p : κ × ν} : p ∈ without k l ↔ p ∈ l ∧ p.1 ≠ k := by
  simp [without, List.mem_filter]

/-- Pairs without a key have no pair under it. -/
theorem not_mem_without (k : κ) (l : List (κ × ν)) : k ∉ (without k l).map Prod.fst := by
  intro h
  obtain ⟨p, hp, hk⟩ := List.mem_map.mp h
  exact (mem_without.mp hp).2 hk

theorem without_nodup {k : κ} {l : List (κ × ν)} (h : (l.map Prod.fst).Nodup) :
    ((without k l).map Prod.fst).Nodup :=
  h.sublist (List.filter_sublist.map _)

theorem without_length_le (k : κ) (l : List (κ × ν)) : (without k l).length ≤ l.length :=
  List.length_filter_le _ _

/-- Removing a key that no pair has changes nothing. -/
theorem without_of_not_mem {k : κ} {l : List (κ × ν)} (h : k ∉ l.map Prod.fst) : without k l = l := by
  refine List.filter_eq_self.mpr ?_
  intro p hp
  have : p.1 ≠ k := fun he => h (he ▸ List.mem_map_of_mem hp)
  simpa using this

theorem without_eq_nil {k : κ} {l : List (κ × ν)} : without k l = [] ↔ ∀ p ∈ l, p.1 = k := by
  simp [without, List.filter_eq_nil_iff]

theorem without_append (k : κ) (l l' : List (κ × ν)) : without k (l ++ l') = without k l ++ without k l' :=
  List.filter_append ..

/-- After the last pair under another key, every pair has the key. -/
theorem split_of_without_getLast {k : κ} {l : List (κ × ν)} {p : κ × ν} (h : (without k l).getLast? = some p) :
    p.1 ≠ k ∧ ∃ A B, l = A ++ p :: B ∧ without k B = [] := by
  obtain ⟨ys, hys⟩ := List.getLast?_eq_some_iff.mp h
  obtain ⟨l₁, l₂, rfl, -, h₂⟩ := List.filter_eq_append_iff.mp hys
  obtain ⟨A, B, rfl, -, hp, hB⟩ := List.filter_eq_cons_iff.mp h₂
  exact ⟨of_decide_eq_true hp, l₁ ++ A, B, by rw [List.append_assoc], hB⟩

/-- Of two splits of one list, the second part of one ends the second part of the other. -/
theorem suffix_or_suffix {A B C D : List α} (h : A ++ B = C ++ D) : B <:+ D ∨ D <:+ B := by
  rcases List.append_eq_append_iff.mp h with ⟨as, -, hB⟩ | ⟨bs, -, hD⟩
  · exact Or.inr ⟨as, hB.symm⟩
  · exact Or.inl ⟨bs, hD.symm⟩

/-- Around the one pair of a key, removing the key leaves the two sides. -/
theorem without_split {k : κ} {v : ν} {A B : List (κ × ν)} (h : ((A ++ (k, v) :: B).map Prod.fst).Nodup) :
    without k (A ++ (k, v) :: B) = A ++ B := by
  simp only [List.map_append, List.map_cons] at h
  obtain ⟨-, hB, hAB⟩ := List.nodup_append.mp h
  have hA : k ∉ A.map Prod.fst := fun hk => hAB k hk k (by simp) rfl
  have hB' : k ∉ B.map Prod.fst := (List.nodup_cons.mp hB).1
  have e : without k (A ++ (k, v) :: B) = without k A ++ without k B := by simp [without]
  rw [e, without_of_not_mem hA, without_of_not_mem hB']

/-- A list with a pair under a key is strictly longer than the list without it. -/
theorem without_length_lt {k : κ} {v : ν} {l : List (κ × ν)} (h : (k, v) ∈ l) : (without k l).length < l.length := by
  refine List.length_filter_lt_length_iff_exists.mpr ⟨(k, v), h, by simp⟩

/-! ## Reading -/

/-- A key reads as a value exactly when their pair is resident. -/
theorem LruCache.peek_eq_some_iff (c : LruCache κ ν) (k : κ) (v : ν) : c.peek k = some v ↔ (k, v) ∈ c.entries := by
  constructor
  · intro h
    obtain ⟨p, hp, hv⟩ := Option.map_eq_some_iff.mp h
    have hk : p.1 = k := by simpa using List.find?_some hp
    have hm := List.mem_of_find?_eq_some hp
    obtain ⟨a, b⟩ := p
    simp only at hk hv
    subst hk hv
    exact hm
  · intro h
    cases hf : c.entries.find? (fun p => decide (p.1 = k)) with
    | none =>
      have := List.find?_eq_none.mp hf (k, v) h
      simp at this
    | some p =>
      have hk : p.1 = k := by simpa using List.find?_some hf
      have hm := List.mem_of_find?_eq_some hf
      have : p = (k, v) := List.inj_on_of_nodup_map c.nodup hm h hk
      simp [LruCache.peek, hf, this]

/-- A key reads as nothing exactly when no resident pair has it. -/
theorem LruCache.peek_eq_none_iff (c : LruCache κ ν) (k : κ) : c.peek k = none ↔ k ∉ c.entries.map Prod.fst := by
  constructor
  · intro h hk
    obtain ⟨⟨a, v⟩, hp, rfl⟩ := List.mem_map.mp hk
    rw [(c.peek_eq_some_iff a v).mpr hp] at h
    cases h
  · intro h
    cases hp : c.peek k with
    | none => rfl
    | some v => exact absurd (List.mem_map_of_mem ((c.peek_eq_some_iff k v).mp hp)) h

/-- Two maps with the same resident pairs under a key read the same there. -/
theorem LruCache.peek_congr {c d : LruCache κ ν} {k : κ} (h : ∀ v, (k, v) ∈ c.entries ↔ (k, v) ∈ d.entries) :
    c.peek k = d.peek k := by
  refine Option.ext fun v => ?_
  rw [LruCache.peek_eq_some_iff, LruCache.peek_eq_some_iff]
  exact h v

/-- The split of the resident pairs around the pair of a key. -/
theorem LruCache.split_of_peek {c : LruCache κ ν} {k : κ} {v : ν} (h : c.peek k = some v) :
    ∃ A B, c.entries = A ++ (k, v) :: B ∧ without k c.entries = A ++ B := by
  obtain ⟨A, B, e⟩ := List.append_of_mem ((c.peek_eq_some_iff k v).mp h)
  refine ⟨A, B, e, ?_⟩
  rw [e]
  exact without_split (e ▸ c.nodup)

@[simp] theorem LruCache.peek_new (cap : Nat) (h : 0 < cap) (k : κ) :
    (LruCache.new cap h : LruCache κ ν).peek k = none := rfl

omit [DecidableEq κ] in
@[simp] theorem LruCache.weight_new (w : ν → Nat) (cap : Nat) (h : 0 < cap) :
    (LruCache.new cap h : LruCache κ ν).weight w = 0 := rfl

/-! ## Removing a key -/

/-- Remove the pair of a key. -/
def LruCache.erase (c : LruCache κ ν) (k : κ) : LruCache κ ν :=
  { c with
    entries := without k c.entries
    nodup := without_nodup c.nodup
    bounded := Nat.le_trans (without_length_le k _) c.bounded }

/-- An erased key is not there, and the others are. -/
theorem LruCache.peek_erase (c : LruCache κ ν) (k k' : κ) :
    (c.erase k).peek k' = if k' = k then none else c.peek k' := by
  by_cases hk : k' = k
  · subst hk
    rw [if_pos rfl, LruCache.peek_eq_none_iff]
    exact not_mem_without k' _
  · rw [if_neg hk]
    refine LruCache.peek_congr fun v => ?_
    simp [LruCache.erase, mem_without, hk]

/-- An erased entry takes its weight with it. -/
theorem LruCache.weight_erase {c : LruCache κ ν} {k : κ} {v : ν} (w : ν → Nat) (h : c.peek k = some v) :
    c.weight w = w v + (c.erase k).weight w := by
  obtain ⟨A, B, e, e'⟩ := LruCache.split_of_peek h
  rw [e] at e'
  simp only [LruCache.weight, LruCache.erase, e', e, List.map_append, List.map_cons, List.sum_append, List.sum_cons]
  omega

/-! ## Reading with promotion -/

/-- Update the value of a resident key and make it the most recently used. -/
def LruCache.touch (c : LruCache κ ν) (k : κ) (f : ν → ν) : LruCache κ ν :=
  match h : c.peek k with
  | none => c
  | some v =>
    { c with
      entries := without k c.entries ++ [(k, f v)]
      nodup := by
        rw [List.map_append, List.nodup_append]
        refine ⟨without_nodup c.nodup, by simp, ?_⟩
        intro a ha b hb he
        simp only [List.map_cons, List.map_nil, List.mem_singleton] at hb
        subst he hb
        exact not_mem_without _ c.entries ha
      bounded := by
        have := without_length_lt ((c.peek_eq_some_iff k v).mp h)
        have := c.bounded
        simp only [List.length_append, List.length_cons, List.length_nil]
        omega }

theorem LruCache.touch_of_none {c : LruCache κ ν} {k : κ} (f : ν → ν) (h : c.peek k = none) : c.touch k f = c := by
  unfold LruCache.touch
  split
  · rfl
  · rename_i v hv
    rw [h] at hv
    cases hv

/-- A touched entry is the last. -/
theorem LruCache.touch_entries {c : LruCache κ ν} {k : κ} {v : ν} (f : ν → ν) (h : c.peek k = some v) :
    (c.touch k f).entries = without k c.entries ++ [(k, f v)] := by
  unfold LruCache.touch
  split
  · rename_i hv
    rw [h] at hv
    cases hv
  · rename_i u hu
    rw [h] at hu
    cases hu
    rfl

@[simp] theorem LruCache.touch_cap (c : LruCache κ ν) (k : κ) (f : ν → ν) : (c.touch k f).cap = c.cap := by
  unfold LruCache.touch
  split <;> rfl

/-- A touched entry is changed, and the others are not. -/
theorem LruCache.peek_touch (c : LruCache κ ν) (k k' : κ) (f : ν → ν) :
    (c.touch k f).peek k' = if k' = k then (c.peek k).map f else c.peek k' := by
  cases h : c.peek k with
  | none =>
    rw [LruCache.touch_of_none f h]
    by_cases hk : k' = k
    · simp [hk, h]
    · simp [hk]
  | some v =>
    by_cases hk : k' = k
    · subst hk
      rw [if_pos rfl, Option.map_some, LruCache.peek_eq_some_iff, LruCache.touch_entries f h]
      simp
    · rw [if_neg hk]
      refine LruCache.peek_congr fun u => ?_
      rw [LruCache.touch_entries f h]
      simp [mem_without, hk]

/-- A promotion that keeps the measure of the value keeps the weight. -/
theorem LruCache.weight_touch (w : ν → Nat) (c : LruCache κ ν) (k : κ) (f : ν → ν) (hf : ∀ v, w (f v) = w v) :
    (c.touch k f).weight w = c.weight w := by
  cases h : c.peek k with
  | none => rw [LruCache.touch_of_none f h]
  | some v =>
    have := LruCache.weight_erase w h
    simp only [LruCache.weight, LruCache.erase] at this
    simp only [LruCache.weight, LruCache.touch_entries f h, List.map_append, List.map_cons, List.map_nil,
      List.sum_append, List.sum_cons, List.sum_nil, hf]
    omega

/-! ## Inserting -/

/-- Insert a pair as the most recently used. The pair of a resident key is replaced and returned; otherwise a full map drops
its least recently used pair and returns it. -/
def LruCache.push (c : LruCache κ ν) (k : κ) (v : ν) : Option (κ × ν) × LruCache κ ν :=
  match h : c.peek k with
  | some u => (some (k, u), c.touch k (fun _ => v))
  | none =>
    let kept := if c.entries.length = c.cap then c.entries.tail else c.entries
    (if c.entries.length = c.cap then c.entries.head? else none,
      { c with
        entries := kept ++ [(k, v)]
        nodup := by
          have hk := (c.peek_eq_none_iff k).mp h
          have hs : kept.Sublist c.entries := by
            unfold kept
            split
            · exact List.tail_sublist _
            · exact List.Sublist.refl _
          rw [List.map_append, List.nodup_append]
          refine ⟨c.nodup.sublist (hs.map _), by simp, ?_⟩
          intro a ha b hb he
          simp only [List.map_cons, List.map_nil, List.mem_singleton] at hb
          subst he hb
          exact hk ((hs.map Prod.fst).subset ha)
        bounded := by
          have hb := c.bounded
          have hp := c.cap_pos
          simp only [List.length_append, List.length_cons, List.length_nil]
          unfold kept
          split
          · rw [List.length_tail]
            omega
          · omega })

/-- Inserting under a resident key replaces its pair. -/
theorem LruCache.push_of_some {c : LruCache κ ν} {k : κ} {u : ν} (v : ν) (h : c.peek k = some u) :
    c.push k v = (some (k, u), c.touch k (fun _ => v)) := by
  unfold LruCache.push
  split
  · rename_i u' hu
    rw [h] at hu
    cases hu
    rfl
  · rename_i hu
    rw [h] at hu
    cases hu

/-- Inserting under a new key drops the oldest pair of a full map, and only then. -/
theorem LruCache.push_of_none {c : LruCache κ ν} {k : κ} (v : ν) (h : c.peek k = none) :
    (c.push k v).1 = (if c.entries.length = c.cap then c.entries.head? else none) ∧
      (c.push k v).2.entries = (if c.entries.length = c.cap then c.entries.tail else c.entries) ++ [(k, v)] := by
  unfold LruCache.push
  split
  · rename_i u hu
    rw [h] at hu
    cases hu
  · exact ⟨rfl, rfl⟩

/-- The inserted pair is resident. -/
@[simp] theorem LruCache.peek_push_self (c : LruCache κ ν) (k : κ) (v : ν) : (c.push k v).2.peek k = some v := by
  cases h : c.peek k with
  | some u =>
    rw [LruCache.push_of_some v h, LruCache.peek_touch, if_pos rfl, h]
    rfl
  | none =>
    rw [LruCache.peek_eq_some_iff, (LruCache.push_of_none v h).2]
    simp

/-- An insertion makes no other pair resident. -/
theorem LruCache.peek_push_of_ne {c : LruCache κ ν} {k k' : κ} {v u : ν} (hk : k' ≠ k)
    (h : (c.push k v).2.peek k' = some u) : c.peek k' = some u := by
  cases hp : c.peek k with
  | some o =>
    rw [LruCache.push_of_some v hp, LruCache.peek_touch, if_neg hk] at h
    exact h
  | none =>
    rw [LruCache.peek_eq_some_iff, (LruCache.push_of_none v hp).2, List.mem_append, List.mem_singleton] at h
    rcases h with h | h
    · rw [LruCache.peek_eq_some_iff]
      split at h
      · exact List.mem_of_mem_tail h
      · exact h
    · exact absurd (congrArg Prod.fst h) hk

@[simp] theorem LruCache.push_cap (c : LruCache κ ν) (k : κ) (v : ν) : (c.push k v).2.cap = c.cap := by
  unfold LruCache.push
  split
  · exact LruCache.touch_cap c k _
  · rfl

/-- An insertion into a map with room drops nothing. -/
theorem LruCache.peek_push_of_room {c : LruCache κ ν} {k k' : κ} (v : ν) (hroom : c.entries.length < c.cap) (hk : k' ≠ k) :
    (c.push k v).2.peek k' = c.peek k' := by
  cases hp : c.peek k with
  | some o => rw [LruCache.push_of_some v hp, LruCache.peek_touch, if_neg hk]
  | none =>
    refine LruCache.peek_congr fun u => ?_
    rw [(LruCache.push_of_none v hp).2, if_neg (Nat.ne_of_lt hroom)]
    simp [hk]

/-- A map whose keys are among at most `cap` keys has room for another of these. -/
theorem LruCache.length_lt_cap {c : LruCache κ ν} {keys : List κ} {k : κ} (hsub : ∀ k v, c.peek k = some v → k ∈ keys)
    (hlen : keys.length ≤ c.cap) (hk : k ∈ keys) (h : c.peek k = none) : c.entries.length < c.cap := by
  have hnodup : (k :: c.entries.map Prod.fst).Nodup := List.nodup_cons.mpr ⟨(c.peek_eq_none_iff k).mp h, c.nodup⟩
  have hkeys : k :: c.entries.map Prod.fst ⊆ keys := by
    refine List.cons_subset.mpr ⟨hk, fun a ha => ?_⟩
    obtain ⟨⟨a, v⟩, hp, rfl⟩ := List.mem_map.mp ha
    exact hsub a v ((c.peek_eq_some_iff a v).mpr hp)
  have hle := (List.subperm_of_subset hnodup hkeys).length_le
  simp only [List.length_cons, List.length_map] at hle
  omega

/-- What an insertion adds to the weight and what the returned pair takes from it. -/
theorem LruCache.weight_push (w : ν → Nat) (c : LruCache κ ν) (k : κ) (v : ν) :
    (c.push k v).2.weight w + ((c.push k v).1.map (fun p => w p.2)).getD 0 = c.weight w + w v := by
  cases h : c.peek k with
  | some u =>
    have := LruCache.weight_erase w h
    simp only [LruCache.weight, LruCache.erase] at this
    rw [LruCache.push_of_some v h]
    simp only [LruCache.weight, LruCache.touch_entries _ h, List.map_append, List.map_cons, List.map_nil,
      List.sum_append, List.sum_cons, List.sum_nil, Option.map_some, Option.getD_some]
    omega
  | none =>
    obtain ⟨h1, h2⟩ := LruCache.push_of_none v h
    rw [h1]
    simp only [LruCache.weight, h2, List.map_append, List.sum_append, List.map_cons, List.map_nil, List.sum_cons,
      List.sum_nil]
    split
    · cases he : c.entries with
      | nil => simp
      | cons p rest =>
        simp
        omega
    · simp

end Keys

/-! ## Removing the oldest pairs -/

/-- Remove pairs from the front of a list as long as the accumulator asks for it. -/
def evictList (p : α → Bool) (step : α → ν → α) : α → List (κ × ν) → α × List (κ × ν)
  | a, [] => (a, [])
  | a, kv :: rest => if p a then evictList p step (step a kv.2) rest else (a, kv :: rest)

/-- What is left is an end of the list; the accumulator has taken in what was removed, in order. -/
theorem evictList_spec (p : α → Bool) (step : α → ν → α) :
    ∀ (l : List (κ × ν)) (a : α), ∃ P, l = P ++ (evictList p step a l).2 ∧
      (evictList p step a l).1 = (P.map Prod.snd).foldl step a := by
  intro l
  induction l with
  | nil => intro a; exact ⟨[], rfl, rfl⟩
  | cons kv rest ih =>
    intro a
    unfold evictList
    split
    · obtain ⟨P, h1, h2⟩ := ih (step a kv.2)
      refine ⟨kv :: P, ?_, ?_⟩
      · rw [List.cons_append, ← h1]
      · rw [h2]
        rfl
    · exact ⟨[], rfl, rfl⟩

/-- The removal stops when the accumulator no longer asks for it or nothing is left. -/
theorem evictList_stop (p : α → Bool) (step : α → ν → α) :
    ∀ (l : List (κ × ν)) (a : α), (evictList p step a l).2 = [] ∨ p (evictList p step a l).1 = false := by
  intro l
  induction l with
  | nil => intro a; exact Or.inl rfl
  | cons kv rest ih =>
    intro a
    unfold evictList
    split
    · exact ih _
    · rename_i h
      exact Or.inr (by simpa using h)

/-- Every pair removed was asked for: the accumulator called for it when it was the oldest. -/
theorem evictList_asked (p : α → Bool) (step : α → ν → α) :
    ∀ (l : List (κ × ν)) (a : α) (P Q : List (κ × ν)) (kv : κ × ν), l = P ++ kv :: Q ++ (evictList p step a l).2 →
      p ((P.map Prod.snd).foldl step a) = true := by
  intro l
  induction l with
  | nil => intro a P Q kv h; simp at h
  | cons x rest ih =>
    intro a P Q kv h
    unfold evictList at h
    split at h
    · rename_i hp
      cases P with
      | nil => exact hp
      | cons y P =>
        simp only [List.cons_append, List.cons.injEq] at h
        obtain ⟨rfl, h⟩ := h
        exact ih _ P Q kv (by simpa using h)
    · have := congrArg List.length h
      simp only [List.length_cons, List.length_append] at this
      omega

/-- What is left after an eviction is an end of the list. -/
theorem evictList_suffix (p : α → Bool) (step : α → ν → α) (l : List (κ × ν)) (a : α) :
    (evictList p step a l).2 <:+ l := by
  obtain ⟨P, h, -⟩ := evictList_spec p step l a
  exact ⟨P, h.symm⟩

/-- Remove the least recently used pairs, one by one, as long as the accumulator asks for it and pairs are left. -/
def LruCache.evictWhile (c : LruCache κ ν) (p : α → Bool) (step : α → ν → α) (a : α) : α × LruCache κ ν :=
  ((evictList p step a c.entries).1,
    { c with
      entries := (evictList p step a c.entries).2
      nodup := c.nodup.sublist ((evictList_suffix p step c.entries a).sublist.map _)
      bounded := Nat.le_trans (evictList_suffix p step c.entries a).length_le c.bounded })

/-- A removal of the oldest pairs makes no pair resident. -/
theorem LruCache.peek_evictWhile [DecidableEq κ] {c : LruCache κ ν} {p : α → Bool} {step : α → ν → α} {a : α} {k : κ}
    {v : ν} (h : (c.evictWhile p step a).2.peek k = some v) : c.peek k = some v := by
  rw [LruCache.peek_eq_some_iff] at h ⊢
  exact (evictList_suffix p step c.entries a).subset h

end Lru
