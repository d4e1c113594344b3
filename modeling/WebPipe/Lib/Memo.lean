import WebPipe.Lib.Lru

/-!
# Memo tables

A bounded table of what a fallible computation answered: a key that is resident is answered from the table and promoted, any
other key is computed, and a success is remembered. A failure is not. Whatever a table has dropped, the answer is the
computation's own, on one table and on any number of tables asked in any order.
-/

namespace Memo

open Lru

variable {κ ν ε ι : Type*} [DecidableEq κ]

/-- Answer from the table; otherwise compute, and remember a success. -/
def lookupOr (compute : κ → Except ε ν) (c : LruCache κ ν) (k : κ) : Except ε ν × LruCache κ ν :=
  match c.peek k with
  | some v => (.ok v, c.touch k id)
  | none =>
    match compute k with
    | .ok v => (.ok v, (c.push k v).2)
    | .error e => (.error e, c)

/-- Every resident pair is an answer of the computation. -/
def Sound (compute : κ → Except ε ν) (c : LruCache κ ν) : Prop :=
  ∀ k v, c.peek k = some v → compute k = .ok v

variable {compute : κ → Except ε ν} {c : LruCache κ ν}

theorem sound_new (compute : κ → Except ε ν) (cap : Nat) (h : 0 < cap) : Sound compute (LruCache.new cap h) := by
  intro k v hv
  simp at hv

theorem Sound.touch (h : Sound compute c) (k : κ) : Sound compute (c.touch k id) := by
  intro k' v hv
  simp only [LruCache.peek_touch, Option.map_id_fun, id_eq] at hv
  split at hv
  · rename_i hk
    exact h k' v (hk ▸ hv)
  · exact h k' v hv

theorem Sound.push (h : Sound compute c) {k : κ} {v : ν} (hv : compute k = .ok v) : Sound compute (c.push k v).2 := by
  intro k' v' hv'
  by_cases hk : k' = k
  · subst hk
    rw [LruCache.peek_push_self, Option.some.injEq] at hv'
    exact hv' ▸ hv
  · exact h k' v' (LruCache.peek_push_of_ne hk hv')

/-- A sound table answers what the computation does. -/
theorem Sound.lookupOr_fst (h : Sound compute c) (k : κ) : (lookupOr compute c k).1 = compute k := by
  unfold lookupOr
  cases hp : c.peek k with
  | some v => exact (h k v hp).symm
  | none => cases hc : compute k <;> rfl

/-- A lookup keeps a table sound. -/
theorem Sound.lookupOr_snd (h : Sound compute c) (k : κ) : Sound compute (lookupOr compute c k).2 := by
  unfold lookupOr
  cases c.peek k with
  | some v => exact h.touch k
  | none =>
    cases hc : compute k with
    | ok v => exact h.push hc
    | error e => exact h

/-- After its lookup a key whose computation succeeds is resident. -/
theorem isSome_peek_lookupOr {k : κ} {v : ν} (hk : compute k = .ok v) (c : LruCache κ ν) :
    ((lookupOr compute c k).2.peek k).isSome := by
  unfold lookupOr
  cases hp : c.peek k with
  | some u => simp [LruCache.peek_touch, hp]
  | none => simp [hk]

/-! ## What a run computes -/

/-- The keys that a run of lookups has to compute, in order. -/
def computed (compute : κ → Except ε ν) (c : LruCache κ ν) : List κ → List κ
  | [] => []
  | k :: ks =>
    if (c.peek k).isSome then computed compute (lookupOr compute c k).2 ks
    else k :: computed compute (lookupOr compute c k).2 ks

/-- A key whose computation fails is computed at every lookup. -/
theorem count_computed_of_error {k : κ} {e : ε} (hk : compute k = .error e) (ks : List κ) :
    ∀ c : LruCache κ ν, Sound compute c → (computed compute c ks).count k = ks.count k := by
  induction ks with
  | nil => intro c _; rfl
  | cons k' ks ih =>
    intro c h
    have hrest := ih _ (h.lookupOr_snd k')
    unfold computed
    split
    · rename_i hsome
      obtain ⟨v, hv⟩ := Option.isSome_iff_exists.mp hsome
      have hne : k' ≠ k := by
        rintro rfl
        exact absurd (h k' v hv) (by simp [hk])
      rw [hrest, List.count_cons_of_ne hne]
    · rw [List.count_cons, List.count_cons, hrest]

/-- The residents of a table are among these keys, which it could hold all at once. -/
structure Fits (keys : List κ) (c : LruCache κ ν) : Prop where
  residents : ∀ k v, c.peek k = some v → k ∈ keys
  room : keys.length ≤ c.cap

theorem fits_new {keys : List κ} {cap : Nat} (h : 0 < cap) (hlen : keys.length ≤ cap) :
    Fits keys (LruCache.new cap h : LruCache κ ν) := by
  refine ⟨?_, hlen⟩
  intro k v hv
  simp at hv

/-- A lookup of one of these keys keeps the table so. -/
theorem Fits.lookupOr {keys : List κ} (h : Fits keys c) {k : κ} (hk : ∀ v, compute k = .ok v → k ∈ keys) :
    Fits keys (lookupOr compute c k).2 := by
  unfold Memo.lookupOr
  cases hp : c.peek k with
  | some v =>
    refine ⟨?_, by simpa using h.room⟩
    intro k' v' hv'
    simp only [LruCache.peek_touch, Option.map_id_fun, id_eq] at hv'
    split at hv'
    · rename_i he
      exact h.residents k' v' (he ▸ hv')
    · exact h.residents k' v' hv'
  | none =>
    cases hc : compute k with
    | error e => exact h
    | ok v =>
      refine ⟨?_, by simpa using h.room⟩
      intro k' v' hv'
      by_cases he : k' = k
      · exact he ▸ hk v hc
      · exact h.residents k' v' (LruCache.peek_push_of_ne he hv')

/-- A table that could hold all the keys asked for drops none. -/
theorem Fits.peek_lookupOr {keys : List κ} (h : Fits keys c) {k k' : κ} (hk : ∀ v, compute k = .ok v → k ∈ keys) (hne : k' ≠ k) :
    (Memo.lookupOr compute c k).2.peek k' = c.peek k' := by
  unfold Memo.lookupOr
  cases hp : c.peek k with
  | some v => simp [LruCache.peek_touch, hne]
  | none =>
    cases hc : compute k with
    | error e => rfl
    | ok v => exact LruCache.peek_push_of_room v (LruCache.length_lt_cap h.residents h.room (hk v hc) hp) hne

/-- A key whose computation succeeds is computed once at most, and not at all when it is resident. -/
theorem count_computed_of_ok {keys : List κ} {k : κ} {v : ν} (hk : compute k = .ok v) (ks : List κ)
    (hks : ∀ k ∈ ks, ∀ v, compute k = .ok v → k ∈ keys) :
    ∀ c : LruCache κ ν, Fits keys c → (computed compute c ks).count k ≤ if (c.peek k).isSome then 0 else 1 := by
  induction ks with
  | nil => intro c _; simp [computed]
  | cons k' ks ih =>
    intro c h
    have hkeys : ∀ v, compute k' = .ok v → k' ∈ keys := hks k' List.mem_cons_self
    have hrest := ih (fun a ha => hks a (List.mem_cons_of_mem _ ha)) _ (h.lookupOr hkeys)
    by_cases hkk : k' = k
    · -- after its own lookup the key is resident, so the rest of the run computes it no more
      subst hkk
      rw [if_pos (isSome_peek_lookupOr hk c)] at hrest
      unfold computed
      split
      · omega
      · rw [List.count_cons_self]
        omega
    · rw [h.peek_lookupOr hkeys (Ne.symm hkk)] at hrest
      unfold computed
      split
      · exact hrest
      · rw [List.count_cons_of_ne hkk]
        exact hrest

/-! ## Many tables -/

variable [DecidableEq ι]

/-- A lookup in one table of a family. -/
def lookupAt (compute : κ → Except ε ν) (tables : ι → LruCache κ ν) (i : ι) (k : κ) :
    Except ε ν × (ι → LruCache κ ν) :=
  ((lookupOr compute (tables i) k).1, Function.update tables i (lookupOr compute (tables i) k).2)

variable {tables : ι → LruCache κ ν}

/-- A lookup in one table keeps every table of the family sound. -/
theorem sound_lookupAt (h : ∀ i, Sound compute (tables i)) (i : ι) (k : κ) (j : ι) :
    Sound compute ((lookupAt compute tables i k).2 j) := by
  unfold lookupAt
  by_cases hj : j = i
  · subst hj
    simpa using (h j).lookupOr_snd k
  · simpa [Function.update_of_ne hj] using h j

end Memo
