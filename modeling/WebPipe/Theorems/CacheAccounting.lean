import WebPipe.Lemmas.CacheSize

/-!
# The byte budget of the cache

`current_size` against the sizes that are resident. An overwrite takes the old size off twice: once before it makes room, and
once more because `push` returns the pair it replaced. `KeepsAccount` is the exact condition under which a call leaves the
counter right, and `accounted_iff` carries it to whole runs.
-/

namespace WebPipe
namespace CacheStore

open Lru

/-- The counter is the sum of the resident sizes, and that sum is within the budget. -/
def Accounted (s : CacheStore) : Prop := s.currentSize = s.residentSize ∧ s.residentSize ≤ s.maxTotalSize

/-- The most recently used entry under another key. -/
def newestOther (s : CacheStore) (key : String) : Option CacheEntry :=
  (without key s.inner.entries).getLast?.map Prod.snd

/-- The key is the most recently used one. -/
def IsNewest (s : CacheStore) (key : String) : Prop := s.inner.entries.getLast?.map Prod.fst = some key

instance (s : CacheStore) (key : String) : Decidable (s.IsNewest key) :=
  inferInstanceAs (Decidable (_ = _))

/-- An overwrite of `old` by an entry of size `n` leaves the counter right: it evicts every other entry, and it does not fail
after the old size was taken off. -/
def OverwriteKeeps (s : CacheStore) (now ttl : Nat) (key : String) (old : CacheEntry) (n : Nat) : Prop :=
  match s.newestOther key with
  | none => s.maxTotalSize < n ∨ (s.deadlines now ttl).isSome
  | some newest =>
    if s.IsNewest key then
      s.maxTotalSize < newest.sizeBytes + n ∧ (s.maxTotalSize < n ∨ (s.deadlines now ttl).isSome)
    else s.maxTotalSize < newest.sizeBytes - old.sizeBytes + n

/-- A call leaves the counter right: every call but an admitted overwrite does. -/
def KeepsAccount (s : CacheStore) : Nat × CacheCall → Prop
  | (now, .put key response ttlSecs) =>
    s.Admits response ttlSecs → ∀ old, s.inner.peek key = some old →
      s.OverwriteKeeps now (ttlSecs.getD s.defaultTtlSecs) key old (estimateSize response.body)
  | _ => True

/-! ## Lookups and releases -/

/-- A promotion that keeps the size of the entry keeps the counter right. -/
theorem Accounted.touch {s : CacheStore} (h : s.Accounted) (key : String) {f : CacheEntry → CacheEntry}
    (hf : ∀ e, (f e).sizeBytes = e.sizeBytes) : ({ s with inner := s.inner.touch key f } : CacheStore).Accounted := by
  have hw : (s.inner.touch key f).weight CacheEntry.sizeBytes = s.residentSize := LruCache.weight_touch _ _ _ _ hf
  obtain ⟨hc, hm⟩ := h
  exact ⟨hc.trans hw.symm, le_of_eq_of_le hw hm⟩

/-- A lookup keeps the counter right: an expired entry takes its own size with it. -/
theorem Accounted.lookup {s : CacheStore} (h : s.Accounted) (now : Nat) (key : String) :
    (s.lookup now key).2.Accounted := by
  rcases lookup_cases s now key with ⟨-, hl⟩ | ⟨e, hp, ⟨-, hl⟩ | ⟨-, -, -, hl⟩ | ⟨-, -, -, hl⟩ | ⟨-, -, hl⟩⟩
  · rw [hl]
    exact h
  · rw [hl]
    exact h.touch key fun _ => rfl
  · rw [hl]
    exact h.touch key fun _ => rfl
  · rw [hl]
    exact h.touch key fun _ => rfl
  · rw [hl]
    have hw : s.residentSize = e.sizeBytes + (s.inner.erase key).weight CacheEntry.sizeBytes :=
      LruCache.weight_erase CacheEntry.sizeBytes hp
    obtain ⟨hc, hm⟩ := h
    refine ⟨?_, ?_⟩
    · change s.currentSize - e.sizeBytes = (s.inner.erase key).weight CacheEntry.sizeBytes
      omega
    · change (s.inner.erase key).weight CacheEntry.sizeBytes ≤ s.maxTotalSize
      omega

/-! ## Puts -/

/-- Pairs with positive sizes have size zero only when there are none. -/
theorem pairsSize_eq_zero {l : List (String × CacheEntry)} (h : ∀ p ∈ l, 0 < p.2.sizeBytes) :
    pairsSize l = 0 ↔ l = [] := by
  constructor
  · intro h0
    cases l with
    | nil => rfl
    | cons p l =>
      have := h p (by simp)
      rw [pairsSize_cons] at h0
      omega
  · rintro rfl
    rfl

theorem accounted_insertEntry_iff (s : CacheStore) (size : Nat) (guard : LruCache String CacheEntry) (key : String)
    (entry : CacheEntry) :
    (s.insertEntry size guard key entry).Accounted ↔
      size - returnedSize (guard.push key entry).1 + entry.sizeBytes =
          (s.insertEntry size guard key entry).residentSize ∧
        (s.insertEntry size guard key entry).residentSize ≤ s.maxTotalSize := by
  rw [insertEntry_eq]
  rfl

section Put

variable {s : CacheStore} {key : String} {n : Nat} {room : Nat × LruCache String CacheEntry}

/-- What `makeRoom` left resident has positive sizes. -/
theorem room_pos (hroom : s.makeRoom key n = room) (hs : s.Sized) {p : String × CacheEntry} (hp : p ∈ room.2.entries) :
    0 < p.2.sizeBytes := by
  subst hroom
  exact hs.pos (peek_makeRoom ((LruCache.peek_eq_some_iff _ p.1 p.2).mpr hp))

/-- When the new entry does not fit after all, nothing is left. -/
theorem room_empty_of_too_large (hroom : s.makeRoom key n = room) (h : s.maxTotalSize < room.1 + n) :
    room.2.entries = [] := by
  subst hroom
  obtain ⟨P, -, -, he | he⟩ := makeRoom_spec s key n
  · exact he
  · omega

/-- The map is not full where `makeRoom` removed the key. -/
theorem room_not_full (hroom : s.makeRoom key n = room) {old : CacheEntry} (ho : s.inner.peek key = some old)
    (hn : room.2.peek key = none) : room.2.entries.length ≠ room.2.cap := by
  subst hroom
  obtain ⟨P, hP, -, -⟩ := makeRoom_spec s key n
  have hmem := (s.inner.peek_eq_some_iff key old).mp ho
  have hb := s.inner.bounded
  have hcap : (s.makeRoom key n).2.cap = s.inner.cap := rfl
  rw [hP] at hmem hb
  rcases List.mem_append.mp hmem with h | h
  · have := List.length_pos_of_mem h
    rw [List.length_append] at hb
    omega
  · exact absurd (List.mem_map_of_mem h) ((LruCache.peek_eq_none_iff _ key).mp hn)

/-- The entry stored under a new key: the counter is right. -/
theorem accounted_insert_new (hroom : s.makeRoom key n = room) (hc : s.currentSize = s.residentSize)
    (ho : s.inner.peek key = none) (hfit : room.1 + n ≤ s.maxTotalSize) {entry : CacheEntry} (he : entry.sizeBytes = n) :
    (s.insertEntry room.1 room.2 key entry).Accounted := by
  have hcount : room.1 = pairsSize room.2.entries - s.oldSize key := hroom ▸ makeRoom_counter hc key n
  have hold : s.oldSize key = 0 := by simp [oldSize, ho]
  have hret := returnedSize_push_le room.2 key entry
  have hres := residentSize_insertEntry s room.1 room.2 key entry
  rw [accounted_insertEntry_iff]
  omega

/-- The entry stored over a resident one: the counter is right exactly when no other entry was left. -/
theorem accounted_overwrite_iff (hroom : s.makeRoom key n = room) (hs : s.Sized) (hc : s.currentSize = s.residentSize)
    {old : CacheEntry} (ho : s.inner.peek key = some old) (hfit : room.1 + n ≤ s.maxTotalSize) {entry : CacheEntry}
    (he : entry.sizeBytes = n) :
    (s.insertEntry room.1 room.2 key entry).Accounted ↔ without key room.2.entries = [] := by
  have hcount : room.1 = pairsSize room.2.entries - s.oldSize key := hroom ▸ makeRoom_counter hc key n
  have hold : s.oldSize key = old.sizeBytes := by simp [oldSize, ho]
  have hopos : 0 < old.sizeBytes := hs.pos ho
  have hpos : ∀ p ∈ without key room.2.entries, 0 < p.2.sizeBytes :=
    fun p hp => room_pos hroom hs (mem_without.mp hp).1
  have hres := residentSize_insertEntry s room.1 room.2 key entry
  rw [accounted_insertEntry_iff, ← pairsSize_eq_zero hpos]
  cases hk : room.2.peek key with
  | some old' =>
    -- the key survived: its old size was taken off before, and comes back from `push`
    have hsame : old' = old := Option.some.inj ((peek_makeRoom (hroom ▸ hk)).symm.trans ho)
    have hsplit := pairsSize_without hk
    have hret : returnedSize (room.2.push key entry).1 = old'.sizeBytes := by
      rw [LruCache.push_of_some entry hk]
      rfl
    subst hsame
    omega
  | none =>
    -- the key itself was evicted, so its old size was taken off twice
    have hall : without key room.2.entries = room.2.entries :=
      without_of_not_mem ((LruCache.peek_eq_none_iff _ _).mp hk)
    have hret : returnedSize (room.2.push key entry).1 = 0 := by
      rw [(LruCache.push_of_none entry hk).1, if_neg (room_not_full hroom ho hk)]
      rfl
    rw [hall]
    omega

/-- A put that fails after it made room leaves the counter right when the key was new or nothing is left. -/
theorem accounted_withRoom_iff (hroom : s.makeRoom key n = room) (hs : s.Sized) (h : s.Accounted) :
    (s.withRoom room).Accounted ↔ (s.inner.peek key = none ∨ room.2.entries = []) := by
  have hcount : room.1 = pairsSize room.2.entries - s.oldSize key := hroom ▸ makeRoom_counter h.1 key n
  have hle : pairsSize room.2.entries ≤ s.residentSize := by
    subst hroom
    obtain ⟨P, hP, -, -⟩ := makeRoom_spec s key n
    rw [residentSize, weight_eq_pairsSize, hP, pairsSize_append]
    omega
  have hacc : (s.withRoom room).Accounted ↔
      room.1 = pairsSize room.2.entries ∧ pairsSize room.2.entries ≤ s.maxTotalSize := Iff.rfl
  have hbudget := h.2
  rw [hacc, ← pairsSize_eq_zero (fun p hp => room_pos hroom hs hp)]
  cases ho : s.inner.peek key with
  | none =>
    have hold : s.oldSize key = 0 := by simp [oldSize, ho]
    simp only [true_or, iff_true]
    omega
  | some old =>
    have hold : s.oldSize key = old.sizeBytes := by simp [oldSize, ho]
    have hopos : 0 < old.sizeBytes := hs.pos ho
    simp only [reduceCtorEq, false_or]
    omega

end Put

/-- An admitted overwrite leaves the counter right exactly when it evicts every other entry, and the key as well if the clock
cannot represent the deadlines. -/
theorem accounted_put_resident_iff {s : CacheStore} (hs : s.Sized) (h : s.Accounted) {key : String} {old : CacheEntry}
    (ho : s.inner.peek key = some old) {response : CachedResponse} {ttlSecs : Option Nat}
    (ha : s.Admits response ttlSecs) (now : Nat) {room : Nat × LruCache String CacheEntry}
    (hroom : s.makeRoom key (estimateSize response.body) = room) :
    (s.putResponse now key response ttlSecs).2.Accounted ↔
      without key room.2.entries = [] ∧
        (room.2.entries = [] ∨ (s.deadlines now (ttlSecs.getD s.defaultTtlSecs)).isSome) := by
  have hnone : s.inner.peek key ≠ none := by
    rw [ho]
    nofun
  have hnil : room.2.entries = [] → without key room.2.entries = [] := by
    intro he
    rw [he]
    rfl
  rcases putResponse_cases s now key response ttlSecs with
    ⟨hna, -, -⟩ | ⟨-, room', hroom', ⟨hlarge, hp⟩ | ⟨-, hd, hp⟩ | ⟨hfit, d, hd, hp⟩⟩
  · exact absurd ha hna
  · rw [hroom] at hroom'
    subst hroom'
    have he := room_empty_of_too_large hroom hlarge
    rw [hp]
    exact ⟨fun _ => ⟨hnil he, Or.inl he⟩, fun _ => (accounted_withRoom_iff hroom hs h).mpr (Or.inr he)⟩
  · rw [hroom] at hroom'
    subst hroom'
    rw [hp, hd]
    refine (accounted_withRoom_iff hroom hs h).trans ⟨?_, ?_⟩
    · rintro (hn | he)
      · exact absurd hn hnone
      · exact ⟨hnil he, Or.inl he⟩
    · rintro ⟨-, he | hn⟩
      · exact Or.inr he
      · cases hn
  · rw [hroom] at hroom'
    subst hroom'
    rw [hp, hd]
    refine (accounted_overwrite_iff hroom hs h.1 ho hfit rfl).trans ⟨?_, And.left⟩
    intro he
    exact ⟨he, Or.inr rfl⟩

/-- A put under a new key keeps the counter right. -/
theorem accounted_put_new {s : CacheStore} (hs : s.Sized) (h : s.Accounted) {key : String}
    (ho : s.inner.peek key = none) (now : Nat) (response : CachedResponse) (ttlSecs : Option Nat) :
    (s.putResponse now key response ttlSecs).2.Accounted := by
  rcases putResponse_cases s now key response ttlSecs with
    ⟨-, -, hp⟩ | ⟨-, room, hroom, ⟨-, hp⟩ | ⟨-, -, hp⟩ | ⟨hfit, d, -, hp⟩⟩
  · rw [hp]
    exact h
  · rw [hp]
    exact (accounted_withRoom_iff hroom hs h).mpr (Or.inl ho)
  · rw [hp]
    exact (accounted_withRoom_iff hroom hs h).mpr (Or.inl ho)
  · rw [hp]
    exact accounted_insert_new hroom h.1 ho hfit rfl

/-! ## The condition on the state before the put -/

section Cleared

variable {s : CacheStore} {key : String} {old : CacheEntry} {n : Nat} {room : Nat × LruCache String CacheEntry}

theorem startSize_of_accounted (h : s.Accounted) (ho : s.inner.peek key = some old) :
    s.startSize key = pairsSize s.inner.entries - old.sizeBytes := by
  rw [startSize, ho, h.1]
  rfl

/-- Where the key is the most recently used, everything is evicted exactly when the new entry never fits. -/
theorem room_empty_iff (hroom : s.makeRoom key n = room) (h : s.Accounted) (ho : s.inner.peek key = some old)
    (hn : s.IsNewest key) : room.2.entries = [] ↔ s.maxTotalSize < n := by
  subst hroom
  have hstart := startSize_of_accounted h ho
  constructor
  · intro he
    obtain ⟨p, hp, hk⟩ := Option.map_eq_some_iff.mp hn
    obtain ⟨P, hP⟩ := List.getLast?_eq_some_iff.mp hp
    have hpold : p.2 = old := by
      have hmem : (key, p.2) ∈ s.inner.entries := by
        rw [hP, ← hk]
        simp
      exact Option.some.inj (((LruCache.peek_eq_some_iff _ _ _).mpr hmem).symm.trans ho)
    have hasked : s.maxTotalSize < s.startSize key - pairsSize P + n :=
      makeRoom_asked (Q := []) (by rw [he, List.append_nil]; exact hP)
    rw [hP, pairsSize_append, pairsSize_cons, hpold, pairsSize_nil] at hstart
    omega
  · intro hlt
    exact room_empty_of_too_large rfl (by omega)

/-- The other entries are all evicted exactly when the most recently used of them is, and that one is when the counter has
only it and what was used after it left. -/
theorem room_cleared_iff (hroom : s.makeRoom key n = room) (h : s.Accounted) (ho : s.inner.peek key = some old)
    {k : String} {newest : CacheEntry} (hk : k ≠ key) {A B : List (String × CacheEntry)}
    (hE : s.inner.entries = A ++ (k, newest) :: B) (hB : without key B = []) :
    without key room.2.entries = [] ↔ s.maxTotalSize < newest.sizeBytes + pairsSize B - old.sizeBytes + n := by
  subst hroom
  have hstart := startSize_of_accounted h ho
  have hcount := makeRoom_counter h.1 key n
  have hold : s.oldSize key = old.sizeBytes := by simp [oldSize, ho]
  obtain ⟨P, hP, -, hstop⟩ := makeRoom_spec s key n
  simp only [hE, pairsSize_append, pairsSize_cons] at hstart
  constructor
  · intro hnil
    have hnot : ¬(k, newest) ∈ (s.makeRoom key n).2.entries := fun hm => hk (without_eq_nil.mp hnil _ hm)
    rcases List.append_eq_append_iff.mp (hE.symm.trans hP) with ⟨as, hPA, hcons⟩ | ⟨bs, -, hcons⟩
    · cases as with
      | nil =>
        rw [List.nil_append] at hcons
        exact absurd (hcons ▸ List.mem_cons_self) hnot
      | cons a as =>
        rw [List.cons_append, List.cons.injEq] at hcons
        have hasked : s.maxTotalSize < s.startSize key - pairsSize A + n := by
          refine makeRoom_asked (Q := as) (p := a) ?_
          rw [hP, hPA]
        omega
    · exact absurd (hcons ▸ List.mem_append_right bs List.mem_cons_self) hnot
  · intro hlt
    rcases suffix_or_suffix (hE.symm.trans hP) with hsuf | hsuf
    · -- the entry would still be there, and with it room enough
      exfalso
      have hle : newest.sizeBytes + pairsSize B ≤ pairsSize (s.makeRoom key n).2.entries := by
        obtain ⟨X, hX⟩ := hsuf
        simp only [← hX, pairsSize_append, pairsSize_cons]
        omega
      rcases hstop with he | hfit
      · obtain ⟨X, hX⟩ := hsuf
        rw [he] at hX
        simp at hX
      · omega
    · rcases List.suffix_cons_iff.mp hsuf with he | hsuf
      · exfalso
        have hle : pairsSize (s.makeRoom key n).2.entries = newest.sizeBytes + pairsSize B := by
          rw [he, pairsSize_cons]
        rcases hstop with he' | hfit
        · rw [he'] at he
          cases he
        · omega
      · exact without_eq_nil.mpr fun p hp => without_eq_nil.mp hB p (hsuf.subset hp)

/-- Where the key is the most recently used, it alone was used after the other entries. -/
theorem pairsSize_after_of_newest (ho : s.inner.peek key = some old) (hn : s.IsNewest key) {k : String}
    {newest : CacheEntry} (hk : k ≠ key) {A B : List (String × CacheEntry)}
    (hE : s.inner.entries = A ++ (k, newest) :: B) (hB : without key B = []) : pairsSize B = old.sizeBytes := by
  have hall := without_eq_nil.mp hB
  cases B with
  | nil =>
    rw [IsNewest, hE, List.getLast?_concat] at hn
    exact absurd (Option.some.inj hn) hk
  | cons p B =>
    have hnodup := s.inner.nodup
    rw [hE, List.map_append, List.map_cons, List.map_cons] at hnodup
    have hpB := (List.nodup_cons.mp (List.nodup_cons.mp (List.nodup_append.mp hnodup).2.1).2).1
    have hBnil : B = [] := by
      cases B with
      | nil => rfl
      | cons q B =>
        refine absurd ?_ hpB
        rw [hall p (by simp), ← hall q (by simp)]
        simp
    have hp : (key, p.2) ∈ s.inner.entries := by
      rw [hE, ← hall p (by simp)]
      simp
    have hpold : p.2 = old := Option.some.inj (((LruCache.peek_eq_some_iff _ _ _).mpr hp).symm.trans ho)
    rw [hBnil, pairsSize_cons, pairsSize_nil, hpold]
    rfl

/-- Where the key is not the most recently used, nothing was used after the most recent other entry. -/
theorem after_of_not_newest (hn : ¬s.IsNewest key) {p : String × CacheEntry} {A B : List (String × CacheEntry)}
    (hE : s.inner.entries = A ++ p :: B) (hB : without key B = []) : B = [] := by
  rcases List.eq_nil_or_concat B with he | ⟨B', q, he⟩
  · exact he
  · refine absurd ?_ hn
    have hlast : s.inner.entries.getLast? = some q := by
      rw [hE, he, List.concat_eq_append, ← List.cons_append, ← List.append_assoc, List.getLast?_concat]
    have hq : q.1 = key := without_eq_nil.mp hB q (by rw [he]; simp)
    rw [IsNewest, hlast, ← hq]
    rfl

/-- The exact condition on an admitted overwrite, read off the state before it. -/
theorem cleared_iff_overwriteKeeps (hroom : s.makeRoom key n = room) (h : s.Accounted)
    (ho : s.inner.peek key = some old) (now ttl : Nat) :
    (without key room.2.entries = [] ∧ (room.2.entries = [] ∨ (s.deadlines now ttl).isSome)) ↔
      s.OverwriteKeeps now ttl key old n := by
  obtain ⟨P, hP, -, -⟩ := makeRoom_spec s key n
  rw [hroom] at hP
  unfold OverwriteKeeps
  cases hm : s.newestOther key with
  | none =>
    -- no other entry: the key is alone
    have hall : without key s.inner.entries = [] :=
      List.getLast?_eq_none_iff.mp (Option.map_eq_none_iff.mp hm)
    have hnewest : s.IsNewest key := by
      have hne : s.inner.entries ≠ [] := List.ne_nil_of_mem ((s.inner.peek_eq_some_iff key old).mp ho)
      obtain ⟨q, hq⟩ := Option.isSome_iff_exists.mp (List.getLast?_isSome.mpr hne)
      have := without_eq_nil.mp hall q (List.mem_of_getLast? hq)
      rw [IsNewest, hq, ← this]
      rfl
    have hcleared : without key room.2.entries = [] := by
      rw [hP, without_append] at hall
      exact (List.append_eq_nil_iff.mp hall).2
    simp only [hcleared, true_and, room_empty_iff hroom h ho hnewest]
  | some newest =>
    obtain ⟨⟨k, e⟩, hlast, rfl⟩ := Option.map_eq_some_iff.mp hm
    obtain ⟨hk, A, B, hE, hB⟩ := split_of_without_getLast hlast
    have hcleared := room_cleared_iff hroom h ho hk hE hB
    by_cases hn : s.IsNewest key
    · have hafter := pairsSize_after_of_newest ho hn hk hE hB
      rw [hafter, Nat.add_sub_cancel] at hcleared
      simp only [if_pos hn, hcleared, room_empty_iff hroom h ho hn]
    · have hafter := after_of_not_newest hn hE hB
      subst hafter
      rw [pairsSize_nil, Nat.add_zero] at hcleared
      simp only [if_neg hn, ← hcleared]
      refine ⟨And.left, fun hnil => ⟨hnil, Or.inl ?_⟩⟩
      -- what is left ends in the entry that was used last, and that one is gone
      cases hL : room.2.entries with
      | nil => rfl
      | cons q L =>
        have hlastL : (q :: L).getLast? = some (k, e) := by
          have : s.inner.entries.getLast? = some (k, e) := by rw [hE, List.getLast?_concat]
          rw [hP, hL, List.getLast?_append] at this
          cases hq : (q :: L).getLast? with
          | none => simp at hq
          | some r =>
            rw [hq] at this
            exact this
        rw [hL] at hnil
        exact absurd (without_eq_nil.mp hnil _ (List.mem_of_getLast? hlastL)) hk

end Cleared

/-! ## Steps and runs -/

/-- From a store whose counter is right, a call leaves it right exactly when it meets `KeepsAccount`. -/
theorem accounted_step_iff {s : CacheStore} (hs : s.Sized) (h : s.Accounted) (c : Nat × CacheCall) :
    (s.step c).Accounted ↔ s.KeepsAccount c := by
  obtain ⟨now, c⟩ := c
  cases c with
  | put key response ttlSecs =>
    change (s.putResponse now key response ttlSecs).2.Accounted ↔ _
    rw [KeepsAccount]
    cases ho : s.inner.peek key with
    | none => exact ⟨fun _ _ _ => nofun, fun _ => accounted_put_new hs h ho now response ttlSecs⟩
    | some old =>
      by_cases ha : s.Admits response ttlSecs
      · rw [accounted_put_resident_iff hs h ho ha now rfl, cleared_iff_overwriteKeeps rfl h ho]
        refine ⟨fun hk _ old' ho' => ?_, fun hk => hk ha old rfl⟩
        cases ho'
        exact hk
      · rw [(putResponse_of_not_admits ha now key).2.2]
        exact ⟨fun _ hadm => absurd hadm ha, fun _ => h⟩
  | lookup key => exact ⟨fun _ => trivial, fun _ => h.lookup now key⟩
  | clearRefresh key => exact ⟨fun _ => trivial, fun _ => h.touch key fun _ => rfl⟩

/-- All along a run the counter is right exactly when every call of the run meets `KeepsAccount`. -/
theorem accounted_iff (cfg : CacheSettings) (calls : List (Nat × CacheCall)) :
    Runs.Always step Accounted (ofSettings cfg) calls ↔ Runs.EveryStep step KeepsAccount (ofSettings cfg) calls :=
  Runs.always_iff_everyStep (I := Sized) sized_step (fun _ c hs h => accounted_step_iff hs h c) (sized_ofSettings cfg)
    ⟨rfl, Nat.zero_le _⟩ calls

/-- Two keys are stored and the first is overwritten by a response of the same size: the counter ends with its size missing. -/
def overwriteRun : List (Nat × CacheCall) :=
  [(0, .put "a" { body := .string "page a", contentType := "text/html", statusCode := some 200 } none),
    (1, .put "b" { body := .string "page b", contentType := "text/html", statusCode := some 200 } none),
    (2, .put "a" { body := .string "page c", contentType := "text/html", statusCode := some 200 } none)]

/-- An overwrite makes the counter wrong under a monotone clock and limits that nothing here comes near. -/
theorem overwrite_not_accounted :
    (overwriteRun.map Prod.fst).Pairwise (· ≤ ·) ∧
      ¬Runs.Always step Accounted (ofSettings (.ofNew 1024 60 (2 ^ 64 * nanosPerSec))) overwriteRun := by
  refine ⟨by decide, fun h => ?_⟩
  have hrun := (h overwriteRun [] (List.append_nil _).symm).1
  revert hrun
  decide

end CacheStore
end WebPipe
