import WebPipe.Runtime.CacheStore

/-!
# What one call does to the store

`lookup_cases` and `putResponse_cases` say everything a lookup and a put can do; the invariants of the store are derived from
them and never unfold the two functions again.
-/

namespace WebPipe
namespace CacheStore

open Lru

/-- A response passes the checks made before the locks are taken. -/
def Admits (s : CacheStore) (response : CachedResponse) (ttlSecs : Option Nat) : Prop :=
  ttlSecs.getD s.defaultTtlSecs ≠ 0 ∧ estimateSize response.body ≤ s.maxEntrySize

/-- The TTL of a response is positive and its size passes both limits. -/
def Accepts (s : CacheStore) (response : CachedResponse) (ttlSecs : Option Nat) : Prop :=
  s.Admits response ttlSecs ∧ estimateSize response.body ≤ s.maxTotalSize

instance (s : CacheStore) (response : CachedResponse) (ttlSecs : Option Nat) : Decidable (s.Accepts response ttlSecs) :=
  inferInstanceAs (Decidable ((_ ∧ _) ∧ _))

/-- The store with the map and the counter that `makeRoom` left. -/
def withRoom (s : CacheStore) (room : Nat × LruCache String CacheEntry) : CacheStore :=
  { s with inner := room.2, currentSize := room.1 }

/-- The entry a put inserts. -/
def newEntry (response : CachedResponse) (deadlines : Nat × Nat) : CacheEntry :=
  { response := response, freshUntil := deadlines.1, staleUntil := deadlines.2, refreshStarted := none,
    sizeBytes := estimateSize response.body }

/-- The size of the pair that `push` returned. -/
def returnedSize (p : Option (String × CacheEntry)) : Nat := (p.map (fun p => p.2.sizeBytes)).getD 0

/-- Everything a lookup can do. -/
theorem lookup_cases (s : CacheStore) (now : Nat) (key : String) :
    (s.inner.peek key = none ∧ s.lookup now key = (.miss, s)) ∨
    ∃ e, s.inner.peek key = some e ∧
      ((now < e.freshUntil ∧ s.lookup now key = (.fresh e.response, { s with inner := s.inner.touch key id })) ∨
      (e.freshUntil ≤ now ∧ now < e.staleUntil ∧ s.canTakeOver now e = true ∧ s.lookup now key =
        (.refresh e.response, { s with inner := s.inner.touch key (fun e => { e with refreshStarted := some now }) })) ∨
      (e.freshUntil ≤ now ∧ now < e.staleUntil ∧ s.canTakeOver now e = false ∧
        s.lookup now key = (.stale e.response, { s with inner := s.inner.touch key id })) ∨
      (e.freshUntil ≤ now ∧ e.staleUntil ≤ now ∧ s.lookup now key =
        (.miss, { s with inner := s.inner.erase key, currentSize := s.currentSize - e.sizeBytes }))) := by
  unfold lookup
  cases h : s.inner.peek key with
  | none => exact Or.inl ⟨rfl, rfl⟩
  | some e =>
    refine Or.inr ⟨e, rfl, ?_⟩
    by_cases hf : now < e.freshUntil
    · exact Or.inl ⟨hf, by simp [hf]⟩
    · have hf' : e.freshUntil ≤ now := Nat.le_of_not_lt hf
      by_cases hs : now < e.staleUntil
      · cases ht : s.canTakeOver now e with
        | true => exact Or.inr (Or.inl ⟨hf', hs, rfl, by simp [hf, hs, ht]⟩)
        | false => exact Or.inr (Or.inr (Or.inl ⟨hf', hs, rfl, by simp [hf, hs, ht]⟩))
      · exact Or.inr (Or.inr (Or.inr ⟨hf', Nat.le_of_not_lt hs, by simp [hf, hs]⟩))

/-- A put that is not admitted leaves the store alone. -/
theorem putResponse_of_not_admits {s : CacheStore} {response : CachedResponse} {ttlSecs : Option Nat}
    (h : ¬s.Admits response ttlSecs) (now : Nat) (key : String) :
    (s.putResponse now key response ttlSecs).1 ≠ .stored ∧ (s.putResponse now key response ttlSecs).1 ≠ .panicked ∧
      (s.putResponse now key response ttlSecs).2 = s := by
  unfold putResponse putResponseIn
  by_cases ht : ttlSecs.getD s.defaultTtlSecs = 0
  · rw [if_pos ht]
    exact ⟨nofun, nofun, rfl⟩
  · have he : s.maxEntrySize < estimateSize response.body := Nat.lt_of_not_le fun he => h ⟨ht, he⟩
    rw [if_neg ht, if_pos he]
    exact ⟨nofun, nofun, rfl⟩

/-- A put that is admitted makes room first. -/
theorem putResponse_of_admits {s : CacheStore} {response : CachedResponse} {ttlSecs : Option Nat}
    (h : s.Admits response ttlSecs) (now : Nat) (key : String) :
    s.putResponse now key response ttlSecs =
      let room := s.makeRoom key (estimateSize response.body)
      if s.maxTotalSize < room.1 + estimateSize response.body then (.totalTooLarge, s.withRoom room)
      else match s.deadlines now (ttlSecs.getD s.defaultTtlSecs) with
        | none => (.panicked, s.withRoom room)
        | some d => (.stored, s.insertEntry room.1 room.2 key (newEntry response d)) := by
  unfold putResponse putResponseIn deadlines
  rw [if_neg h.1, if_neg (Nat.not_lt.mpr h.2)]
  rcases s.makeRoom key (estimateSize response.body) with ⟨size, guard⟩
  rcases s.deadlinesIn .release now (ttlSecs.getD s.defaultTtlSecs) with _ | ⟨f, t⟩
  · rfl
  · rfl

/-- Everything a put can do. -/
theorem putResponse_cases (s : CacheStore) (now : Nat) (key : String) (response : CachedResponse)
    (ttlSecs : Option Nat) :
    (¬s.Admits response ttlSecs ∧ (s.putResponse now key response ttlSecs).1 ≠ .stored ∧
      (s.putResponse now key response ttlSecs).2 = s) ∨
    (s.Admits response ttlSecs ∧ ∃ room, s.makeRoom key (estimateSize response.body) = room ∧
      ((s.maxTotalSize < room.1 + estimateSize response.body ∧
        s.putResponse now key response ttlSecs = (.totalTooLarge, s.withRoom room)) ∨
      (room.1 + estimateSize response.body ≤ s.maxTotalSize ∧
        s.deadlines now (ttlSecs.getD s.defaultTtlSecs) = none ∧
        s.putResponse now key response ttlSecs = (.panicked, s.withRoom room)) ∨
      (room.1 + estimateSize response.body ≤ s.maxTotalSize ∧
        ∃ d, s.deadlines now (ttlSecs.getD s.defaultTtlSecs) = some d ∧
        s.putResponse now key response ttlSecs =
          (.stored, s.insertEntry room.1 room.2 key (newEntry response d))))) := by
  by_cases ha : s.Admits response ttlSecs
  · refine Or.inr ⟨ha, _, rfl, ?_⟩
    rw [putResponse_of_admits ha]
    by_cases hr : s.maxTotalSize < (s.makeRoom key (estimateSize response.body)).1 + estimateSize response.body
    · exact Or.inl ⟨hr, if_pos hr⟩
    · refine Or.inr ?_
      dsimp only
      rw [if_neg hr]
      have hr := Nat.le_of_not_lt hr
      cases hd : s.deadlines now (ttlSecs.getD s.defaultTtlSecs) with
      | none => exact Or.inl ⟨hr, rfl, rfl⟩
      | some d => exact Or.inr ⟨hr, d, rfl, rfl⟩
  · obtain ⟨hstored, -, hsame⟩ := putResponse_of_not_admits ha now key
    exact Or.inl ⟨ha, hstored, hsame⟩

/-- What `insertEntry` leaves: the entry pushed, the returned pair taken off the counter, the entry added to it. -/
theorem insertEntry_eq (s : CacheStore) (size : Nat) (guard : LruCache String CacheEntry) (key : String)
    (entry : CacheEntry) :
    s.insertEntry size guard key entry =
      { s with inner := (guard.push key entry).2
               currentSize := size - returnedSize (guard.push key entry).1 + entry.sizeBytes } := by
  unfold insertEntry
  rcases guard.push key entry with ⟨_ | p, g⟩
  · rfl
  · rfl

/-! ## What stays: the limits -/

/-- Two stores with the same limits. -/
def SameLimits (s s' : CacheStore) : Prop :=
  s'.defaultTtlSecs = s.defaultTtlSecs ∧ s'.maxEntrySize = s.maxEntrySize ∧ s'.maxTotalSize = s.maxTotalSize ∧
    s'.swrGraceSecs = s.swrGraceSecs ∧ s'.refreshTakeoverSecs = s.refreshTakeoverSecs ∧ s'.clockMax = s.clockMax

theorem SameLimits.refl (s : CacheStore) : s.SameLimits s := ⟨rfl, rfl, rfl, rfl, rfl, rfl⟩

theorem SameLimits.trans {s s' s'' : CacheStore} (h : s.SameLimits s') (h' : s'.SameLimits s'') : s.SameLimits s'' := by
  obtain ⟨h1, h2, h3, h4, h5, h6⟩ := h
  obtain ⟨k1, k2, k3, k4, k5, k6⟩ := h'
  exact ⟨k1.trans h1, k2.trans h2, k3.trans h3, k4.trans h4, k5.trans h5, k6.trans h6⟩

/-- No call changes the limits. -/
theorem sameLimits_call (s : CacheStore) (now : Nat) (c : CacheCall) : s.SameLimits (s.call now c) := by
  cases c with
  | put key response ttlSecs =>
    rcases putResponse_cases s now key response ttlSecs with
      ⟨-, -, h⟩ | ⟨-, room, -, ⟨-, h⟩ | ⟨-, -, h⟩ | ⟨-, d, -, h⟩⟩ <;>
      simp only [call, h, insertEntry_eq] <;> exact ⟨rfl, rfl, rfl, rfl, rfl, rfl⟩
  | lookup key =>
    rcases lookup_cases s now key with ⟨-, h⟩ | ⟨e, -, ⟨-, h⟩ | ⟨-, -, -, h⟩ | ⟨-, -, -, h⟩ | ⟨-, -, h⟩⟩ <;>
      simp only [call, h] <;> exact ⟨rfl, rfl, rfl, rfl, rfl, rfl⟩
  | clearRefresh key => exact ⟨rfl, rfl, rfl, rfl, rfl, rfl⟩

/-! ## What is resident after a call -/

/-- Making room makes no entry resident. -/
theorem peek_makeRoom {s : CacheStore} {key : String} {entrySize : Nat} {k : String} {e : CacheEntry}
    (h : (s.makeRoom key entrySize).2.peek k = some e) : s.inner.peek k = some e :=
  LruCache.peek_evictWhile h

/-- After a put a resident entry was resident before it, or it is the entry stored. -/
theorem peek_putResponse {s : CacheStore} {now : Nat} {key : String} {response : CachedResponse} {ttlSecs : Option Nat}
    {k : String} {e : CacheEntry} (h : (s.putResponse now key response ttlSecs).2.inner.peek k = some e) :
    (s.inner.peek k = some e ∧ (k = key → (s.putResponse now key response ttlSecs).1 ≠ .stored)) ∨
      (k = key ∧ (s.putResponse now key response ttlSecs).1 = .stored ∧ s.Accepts response ttlSecs ∧
        ∃ d, s.deadlines now (ttlSecs.getD s.defaultTtlSecs) = some d ∧ e = newEntry response d) := by
  rcases putResponse_cases s now key response ttlSecs with
    ⟨-, ho, hs⟩ | ⟨ha, room, rfl, ⟨-, hs⟩ | ⟨-, -, hs⟩ | ⟨hfit, d, hd, hs⟩⟩
  · rw [hs] at h
    exact Or.inl ⟨h, fun _ => ho⟩
  · rw [hs] at h ⊢
    exact Or.inl ⟨peek_makeRoom h, fun _ => nofun⟩
  · rw [hs] at h ⊢
    exact Or.inl ⟨peek_makeRoom h, fun _ => nofun⟩
  · rw [hs] at h ⊢
    by_cases hk : k = key
    · subst hk
      simp only [insertEntry_eq, LruCache.peek_push_self, Option.some.injEq] at h
      exact Or.inr ⟨rfl, rfl, ⟨ha, by omega⟩, d, hd, h.symm⟩
    · simp only [insertEntry_eq] at h
      exact Or.inl ⟨peek_makeRoom (LruCache.peek_push_of_ne hk h), fun e => absurd e hk⟩

/-- A promotion makes no entry resident. -/
theorem peek_of_touch_id {c : LruCache String CacheEntry} {key k : String} {entry : CacheEntry}
    (h : (c.touch key id).peek k = some entry) : c.peek k = some entry := by
  rw [LruCache.peek_touch] at h
  by_cases hk : k = key
  · rw [if_pos hk, Option.map_id_fun, id] at h
    exact hk ▸ h
  · rw [if_neg hk] at h
    exact h

/-- After a lookup a resident entry was resident before it, up to its refresh slot. -/
theorem peek_lookup {s : CacheStore} {now : Nat} {key k : String} {e : CacheEntry}
    (h : (s.lookup now key).2.inner.peek k = some e) :
    ∃ e' slot, s.inner.peek k = some e' ∧ e = { e' with refreshStarted := slot } ∧ (k ≠ key → e = e') := by
  have same : s.inner.peek k = some e →
      ∃ e' slot, s.inner.peek k = some e' ∧ e = { e' with refreshStarted := slot } ∧ (k ≠ key → e = e') :=
    fun hk => ⟨e, e.refreshStarted, hk, rfl, fun _ => rfl⟩
  rcases lookup_cases s now key with ⟨-, hl⟩ | ⟨e₀, hp, ⟨-, hl⟩ | ⟨-, -, -, hl⟩ | ⟨-, -, -, hl⟩ | ⟨-, -, hl⟩⟩
  · rw [hl] at h
    exact same h
  · rw [hl] at h
    exact same (peek_of_touch_id h)
  · rw [hl] at h
    simp only [LruCache.peek_touch] at h
    by_cases hkk : k = key
    · rw [if_pos hkk, hp, Option.map_some, Option.some.injEq] at h
      exact ⟨e₀, some now, hkk ▸ hp, h.symm, fun hne => absurd hkk hne⟩
    · rw [if_neg hkk] at h
      exact same h
  · rw [hl] at h
    exact same (peek_of_touch_id h)
  · rw [hl] at h
    simp only [LruCache.peek_erase] at h
    by_cases hkk : k = key
    · rw [if_pos hkk] at h
      cases h
    · rw [if_neg hkk] at h
      exact same h

/-- After a release a resident entry was resident before it, up to its refresh slot. -/
theorem peek_clearRefresh (s : CacheStore) (key k : String) :
    (s.clearRefresh key).inner.peek k =
      if k = key then (s.inner.peek key).map (fun e => { e with refreshStarted := none }) else s.inner.peek k :=
  LruCache.peek_touch _ _ _ _

end CacheStore
end WebPipe
