import WebPipe.Lemmas.CacheStep

/-!
# The size of what is resident

How the sum of the resident sizes and the counter move through `makeRoom`, a push and a removal. The subtraction of
`makeRoom` truncates; `makeRoom_counter` is the one fact about it that every later proof uses.
-/

namespace WebPipe
namespace CacheStore

open Lru

/-- The sum of the sizes of the resident entries. -/
def residentSize (s : CacheStore) : Nat := s.inner.weight CacheEntry.sizeBytes

/-- The size of a list of pairs. -/
def pairsSize (l : List (String × CacheEntry)) : Nat := (l.map (fun p => p.2.sizeBytes)).sum

@[simp] theorem pairsSize_nil : pairsSize [] = 0 := rfl

@[simp] theorem pairsSize_cons (p : String × CacheEntry) (l : List (String × CacheEntry)) :
    pairsSize (p :: l) = p.2.sizeBytes + pairsSize l := by
  simp [pairsSize]

@[simp] theorem pairsSize_append (l l' : List (String × CacheEntry)) :
    pairsSize (l ++ l') = pairsSize l + pairsSize l' := by
  simp [pairsSize]

/-- The weight of a map is the size of its entries. -/
theorem weight_eq_pairsSize (c : LruCache String CacheEntry) : c.weight CacheEntry.sizeBytes = pairsSize c.entries := rfl

/-- The size of the pairs around a resident key. -/
theorem pairsSize_without {c : LruCache String CacheEntry} {key : String} {old : CacheEntry}
    (h : c.peek key = some old) : pairsSize c.entries = old.sizeBytes + pairsSize (without key c.entries) :=
  LruCache.weight_erase CacheEntry.sizeBytes h

/-- Taking sizes off a counter one by one takes off their sum. -/
theorem foldl_sub_sizes (P : List (String × CacheEntry)) (a : Nat) :
    (P.map Prod.snd).foldl (fun size e => size - e.sizeBytes) a = a - pairsSize P := by
  induction P generalizing a with
  | nil => rfl
  | cons p P ih =>
    rw [List.map_cons, List.foldl_cons, ih, pairsSize_cons]
    omega

/-! ## Every resident entry has a size -/

/-- Every resident entry carries the size of its body. -/
def Sized (s : CacheStore) : Prop :=
  ∀ k e, s.inner.peek k = some e → e.sizeBytes = estimateSize e.response.body

/-- Every body has a size. -/
theorem estimateSize_pos (v : Value) : 0 < estimateSize v := Value.toJson_size_pos v

/-- So has every entry. -/
theorem Sized.pos {s : CacheStore} (h : s.Sized) {k : String} {e : CacheEntry} (hp : s.inner.peek k = some e) :
    0 < e.sizeBytes := by
  rw [h k e hp]
  exact estimateSize_pos _

/-- An empty store has nothing to measure. -/
theorem sized_ofSettings (cfg : CacheSettings) : (ofSettings cfg).Sized := by
  intro k e h
  rw [peek_ofSettings] at h
  cases h

/-- Every call keeps the sizes right. -/
theorem sized_step (s : CacheStore) (c : Nat × CacheCall) (hs : s.Sized) : (s.step c).Sized := by
  obtain ⟨now, c⟩ := c
  intro k e h
  cases c with
  | put key response ttlSecs =>
    rcases peek_putResponse h with ⟨h, -⟩ | ⟨-, -, -, d, -, rfl⟩
    · exact hs k e h
    · rfl
  | lookup key =>
    obtain ⟨e', slot, hp, rfl, -⟩ := peek_lookup h
    exact hs k e' hp
  | clearRefresh key =>
    have h : (s.clearRefresh key).inner.peek k = some e := h
    rw [peek_clearRefresh] at h
    by_cases hk : k = key
    · rw [if_pos hk, Option.map_eq_some_iff] at h
      obtain ⟨e', hp, rfl⟩ := h
      exact hs key e' hp
    · rw [if_neg hk] at h
      exact hs k e h

/-! ## Making room -/

/-- The counter `makeRoom` starts from: the old size of the key is taken off first. -/
def startSize (s : CacheStore) (key : String) : Nat :=
  match s.inner.peek key with
  | some old => s.currentSize - old.sizeBytes
  | none => s.currentSize

/-- `makeRoom` removes a prefix of the entries and takes its size off the counter; it stops when the new entry fits or the map
is empty. -/
theorem makeRoom_spec (s : CacheStore) (key : String) (entrySize : Nat) :
    ∃ P, s.inner.entries = P ++ (s.makeRoom key entrySize).2.entries ∧
      (s.makeRoom key entrySize).1 = s.startSize key - pairsSize P ∧
      ((s.makeRoom key entrySize).2.entries = [] ∨
        (s.makeRoom key entrySize).1 + entrySize ≤ s.maxTotalSize) := by
  obtain ⟨P, h1, h2⟩ := evictList_spec (fun size => decide (s.maxTotalSize < size + entrySize))
    (fun size (e : CacheEntry) => size - e.sizeBytes) s.inner.entries (s.startSize key)
  refine ⟨P, h1, ?_, ?_⟩
  · rw [← foldl_sub_sizes]
    exact h2
  · rcases evictList_stop (fun size => decide (s.maxTotalSize < size + entrySize))
      (fun size (e : CacheEntry) => size - e.sizeBytes) s.inner.entries (s.startSize key) with h | h
    · exact Or.inl h
    · exact Or.inr (Nat.le_of_not_lt (of_decide_eq_false h))

/-- An entry that `makeRoom` removed was asked for: the new entry did not fit when it was the oldest. -/
theorem makeRoom_asked {s : CacheStore} {key : String} {entrySize : Nat} {P Q : List (String × CacheEntry)}
    {p : String × CacheEntry} (h : s.inner.entries = P ++ p :: Q ++ (s.makeRoom key entrySize).2.entries) :
    s.maxTotalSize < s.startSize key - pairsSize P + entrySize := by
  have := evictList_asked (fun size => decide (s.maxTotalSize < size + entrySize))
    (fun size (e : CacheEntry) => size - e.sizeBytes) s.inner.entries (s.startSize key) P Q p h
  rw [foldl_sub_sizes] at this
  exact of_decide_eq_true this

/-- The old size of a key, nothing when it is not resident. -/
def oldSize (s : CacheStore) (key : String) : Nat := ((s.inner.peek key).map CacheEntry.sizeBytes).getD 0

/-- When the counter was right, `makeRoom` leaves it short of what is still resident by the old size of the key. -/
theorem makeRoom_counter {s : CacheStore} (h : s.currentSize = s.residentSize) (key : String) (entrySize : Nat) :
    (s.makeRoom key entrySize).1 = pairsSize (s.makeRoom key entrySize).2.entries - s.oldSize key := by
  obtain ⟨P, hP, hc, -⟩ := makeRoom_spec s key entrySize
  have hr : s.residentSize = pairsSize P + pairsSize (s.makeRoom key entrySize).2.entries := by
    rw [residentSize, weight_eq_pairsSize, hP, pairsSize_append]
  rw [hc, startSize, oldSize]
  cases s.inner.peek key with
  | none =>
    simp only [Option.map_none, Option.getD_none]
    omega
  | some old =>
    simp only [Option.map_some, Option.getD_some]
    omega

/-! ## Inserting -/

/-- What an insertion adds to the resident size and what the returned pair takes from it. -/
theorem residentSize_insertEntry (s : CacheStore) (size : Nat) (guard : LruCache String CacheEntry) (key : String)
    (entry : CacheEntry) :
    (s.insertEntry size guard key entry).residentSize + returnedSize (guard.push key entry).1 =
      pairsSize guard.entries + entry.sizeBytes := by
  rw [insertEntry_eq]
  exact LruCache.weight_push CacheEntry.sizeBytes guard key entry

/-- The returned pair was resident, so its size is part of the resident size. -/
theorem returnedSize_push_le (guard : LruCache String CacheEntry) (key : String) (entry : CacheEntry) :
    returnedSize (guard.push key entry).1 ≤ pairsSize guard.entries := by
  have hpush := LruCache.weight_push CacheEntry.sizeBytes guard key entry
  have hself := LruCache.weight_erase CacheEntry.sizeBytes (LruCache.peek_push_self guard key entry)
  rw [weight_eq_pairsSize guard] at hpush
  unfold returnedSize
  omega

end CacheStore
end WebPipe
