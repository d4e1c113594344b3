import WebPipe.Lemmas.CacheSize

/-!
# Rejected puts

A put is rejected for its TTL, for the limit on one entry, or for the limit on the whole cache. The last check is made only after
entries were evicted to make room; a response that exceeds it empties the store. `rejected_put_iff` is exact about it.
-/

namespace WebPipe
namespace CacheStore

open Lru

/-- The put was rejected. -/
def Rejected (outcome : PutOutcome) : Prop := outcome = .ttlZero ∨ outcome = .entryTooLarge ∨ outcome = .totalTooLarge

/-- The same entries are resident, with the same contents, and the counter is the same. -/
def SameResidents (s s' : CacheStore) : Prop :=
  (∀ key, s'.inner.peek key = s.inner.peek key) ∧ s'.currentSize = s.currentSize

/-- What the counter is down to when everything is evicted to make room for a key. -/
def leftover (s : CacheStore) (key : String) : Nat := s.startSize key - s.residentSize

/-- The response passes the first two checks and not the last one, and there is something to lose. -/
def EmptiedBy (s : CacheStore) (key : String) (response : CachedResponse) (ttlSecs : Option Nat) : Prop :=
  s.Admits response ttlSecs ∧ s.inner.entries ≠ [] ∧ s.maxTotalSize < s.leftover key + estimateSize response.body

/-! ## Making room -/

/-- Making room fails exactly when the new entry would not fit if everything were evicted. -/
theorem makeRoom_fails_iff (s : CacheStore) (key : String) (n : Nat) :
    s.maxTotalSize < (s.makeRoom key n).1 + n ↔ s.maxTotalSize < s.leftover key + n := by
  obtain ⟨P, hP, hcount, hstop⟩ := makeRoom_spec s key n
  have hres : s.residentSize = pairsSize P + pairsSize (s.makeRoom key n).2.entries := by
    rw [residentSize, weight_eq_pairsSize, hP, pairsSize_append]
  unfold leftover
  constructor
  · intro hlarge
    rcases hstop with he | hfit
    · rw [he, pairsSize_nil] at hres
      omega
    · omega
  · intro hlarge
    omega

/-- When it fails nothing is left. -/
theorem makeRoom_fails_empty {s : CacheStore} {key : String} {n : Nat} (h : s.maxTotalSize < (s.makeRoom key n).1 + n) :
    (s.makeRoom key n).2.entries = [] := by
  obtain ⟨P, -, -, he | hfit⟩ := makeRoom_spec s key n
  · exact he
  · omega

/-- On a store without entries making room changes nothing. -/
theorem makeRoom_of_empty {s : CacheStore} (h : s.inner.entries = []) (key : String) (n : Nat) :
    (s.makeRoom key n).2.entries = [] ∧ (s.makeRoom key n).1 = s.currentSize := by
  obtain ⟨P, hP, hcount, -⟩ := makeRoom_spec s key n
  rw [h] at hP
  obtain ⟨rfl, hroom⟩ := List.append_eq_nil_iff.mp hP.symm
  have hpeek : s.inner.peek key = none := by
    rw [LruCache.peek_eq_none_iff, h]
    simp
  refine ⟨hroom, ?_⟩
  rw [hcount, startSize, hpeek, pairsSize_nil, Nat.sub_zero]

theorem peek_of_empty {c : LruCache String CacheEntry} (h : c.entries = []) (key : String) : c.peek key = none := by
  rw [LruCache.peek_eq_none_iff, h]
  simp

/-! ## The counter never runs ahead -/

/-- The counter is at most what is resident. -/
def Behind (s : CacheStore) : Prop := s.currentSize ≤ s.residentSize

/-- A put takes at least as much off the counter as it evicts. -/
theorem Behind.put {s : CacheStore} (h : s.Behind) (now : Nat) (key : String) (response : CachedResponse) (ttlSecs : Option Nat) :
    (s.putResponse now key response ttlSecs).2.Behind := by
  have hroom : ∀ n, (s.makeRoom key n).1 ≤ pairsSize (s.makeRoom key n).2.entries := by
    intro n
    obtain ⟨P, hP, hcount, -⟩ := makeRoom_spec s key n
    have hres : s.residentSize = pairsSize P + pairsSize (s.makeRoom key n).2.entries := by
      rw [residentSize, weight_eq_pairsSize, hP, pairsSize_append]
    have hstart : s.startSize key ≤ s.currentSize := by
      unfold startSize
      split
      · exact Nat.sub_le _ _
      · exact Nat.le_refl _
    unfold Behind at h
    omega
  rcases putResponse_cases s now key response ttlSecs with
    ⟨-, -, hp⟩ | ⟨-, room, rfl, ⟨-, hp⟩ | ⟨-, -, hp⟩ | ⟨-, d, -, hp⟩⟩
  · rw [hp]
    exact h
  · rw [hp]
    exact hroom _
  · rw [hp]
    exact hroom _
  · rw [hp]
    have hres := residentSize_insertEntry s (s.makeRoom key (estimateSize response.body)).1
      (s.makeRoom key (estimateSize response.body)).2 key (newEntry response d)
    have hle := hroom (estimateSize response.body)
    have hreturned := returnedSize_push_le (s.makeRoom key (estimateSize response.body)).2 key (newEntry response d)
    rw [insertEntry_eq] at hres ⊢
    unfold Behind
    dsimp only
    omega

/-- Every call keeps the counter behind. -/
theorem behind_step (s : CacheStore) (c : Nat × CacheCall) (h : s.Behind) : (s.step c).Behind := by
  obtain ⟨now, c⟩ := c
  have htouch : ∀ key (f : CacheEntry → CacheEntry), (∀ e, (f e).sizeBytes = e.sizeBytes) →
      ({ s with inner := s.inner.touch key f } : CacheStore).Behind := by
    intro key f hf
    have hw : (s.inner.touch key f).weight CacheEntry.sizeBytes = s.residentSize := LruCache.weight_touch _ _ _ _ hf
    exact le_of_le_of_eq h hw.symm
  cases c with
  | put key response ttlSecs => exact h.put now key response ttlSecs
  | lookup key =>
    change (s.lookup now key).2.Behind
    rcases lookup_cases s now key with ⟨-, hl⟩ | ⟨e, hp, ⟨-, hl⟩ | ⟨-, -, -, hl⟩ | ⟨-, -, -, hl⟩ | ⟨-, -, hl⟩⟩
    · rw [hl]
      exact h
    · rw [hl]
      exact htouch key _ fun _ => rfl
    · rw [hl]
      exact htouch key _ fun _ => rfl
    · rw [hl]
      exact htouch key _ fun _ => rfl
    · rw [hl]
      have hw : s.residentSize = e.sizeBytes + (s.inner.erase key).weight CacheEntry.sizeBytes :=
        LruCache.weight_erase CacheEntry.sizeBytes hp
      change s.currentSize - e.sizeBytes ≤ (s.inner.erase key).weight CacheEntry.sizeBytes
      unfold Behind at h
      omega
  | clearRefresh key => exact htouch key _ fun _ => rfl

/-- In every store that calls lead to, nothing is left of the counter when everything is evicted. -/
theorem leftover_of_run (cfg : CacheSettings) (calls : List (Nat × CacheCall)) (key : String) :
    ((ofSettings cfg).run calls).leftover key = 0 := by
  have hbehind : ((ofSettings cfg).run calls).Behind := Runs.after_of_step behind_step (Nat.zero_le _) calls
  have hstart : ((ofSettings cfg).run calls).startSize key ≤ ((ofSettings cfg).run calls).currentSize := by
    unfold startSize
    split
    · exact Nat.sub_le _ _
    · exact Nat.le_refl _
  unfold Behind at hbehind
  unfold leftover
  omega

/-! ## Rejections -/

/-- A rejected put leaves the store as it was unless it empties it: the response passes the TTL and the limit on one entry, the store
has entries, and the response exceeds what can be freed. In the stores that calls lead to the last means that it exceeds the limit on
the whole cache. -/
theorem rejected_put_iff (s : CacheStore) (now : Nat) (key : String) (response : CachedResponse) (ttlSecs : Option Nat) :
    ((Rejected (s.putResponse now key response ttlSecs).1 → s.SameResidents (s.putResponse now key response ttlSecs).2) ↔
      ¬s.EmptiedBy key response ttlSecs) ∧
    ∀ cfg calls, s = (ofSettings cfg).run calls → (s.EmptiedBy key response ttlSecs ↔
      s.Admits response ttlSecs ∧ s.inner.entries ≠ [] ∧ s.maxTotalSize < estimateSize response.body) := by
  refine ⟨?_, fun cfg calls hs => ?_⟩
  · rcases putResponse_cases s now key response ttlSecs with
      ⟨hna, -, hp⟩ | ⟨ha, room, rfl, ⟨hlarge, hp⟩ | ⟨hfit, -, hp⟩ | ⟨hfit, d, -, hp⟩⟩
    · rw [hp]
      exact ⟨fun _ he => hna he.1, fun _ _ => ⟨fun _ => rfl, rfl⟩⟩
    · have hempty := makeRoom_fails_empty hlarge
      rw [hp]
      constructor
      · intro hsame he
        have hpeek := (hsame (Or.inr (Or.inr rfl))).1
        obtain ⟨p, hmem⟩ := List.exists_mem_of_ne_nil _ he.2.1
        have hp := (LruCache.peek_eq_some_iff _ p.1 p.2).mpr hmem
        rw [← hpeek p.1] at hp
        exact absurd (peek_of_empty hempty p.1 ▸ hp) nofun
      · intro hne _
        have hnil : s.inner.entries = [] := by
          by_contra hentries
          exact hne ⟨ha, hentries, (makeRoom_fails_iff s key _).mp hlarge⟩
        refine ⟨fun k => ?_, (makeRoom_of_empty hnil key _).2⟩
        exact (peek_of_empty hempty k).trans (peek_of_empty hnil k).symm
    · rw [hp]
      refine ⟨fun _ he => ?_, fun _ hrejected => ?_⟩
      · have := (makeRoom_fails_iff s key _).mpr he.2.2
        omega
      · rcases hrejected with h | h | h <;> cases h
    · rw [hp]
      refine ⟨fun _ he => ?_, fun _ hrejected => ?_⟩
      · have := (makeRoom_fails_iff s key _).mpr he.2.2
        omega
      · rcases hrejected with h | h | h <;> cases h
  · have hzero : s.leftover key = 0 := hs ▸ leftover_of_run cfg calls key
    unfold EmptiedBy
    rw [hzero, Nat.zero_add]

/-- A store whose limit on one entry exceeds its limit on the whole cache, with a small page in it. -/
def pageStore : CacheStore :=
  (newWithLimits 16 60 100 10 (2 ^ 64 * nanosPerSec)).run
    [(0, .put "a" { body := .string "page", contentType := "text/html", statusCode := some 200 } none)]

/-- A page of 12 bytes. -/
def longPage : CachedResponse := { body := .string "long page!", contentType := "text/html", statusCode := some 200 }

/-- The long page is rejected, and the small one is gone. -/
theorem rejected_put_empties :
    ¬ ∀ (s : CacheStore) (now : Nat) (key : String) (response : CachedResponse) (ttlSecs : Option Nat),
      Rejected (s.putResponse now key response ttlSecs).1 → s.SameResidents (s.putResponse now key response ttlSecs).2 := by
  intro h
  have hsame := h pageStore 1 "b" longPage none (Or.inr (Or.inr (by decide +kernel)))
  have hsize := hsame.2
  revert hsize
  decide +kernel

end CacheStore
end WebPipe
