import Mathlib.Order.Nat
import WebPipe.Lib.TtlMap
import WebPipe.Lemmas.CacheSize

/-!
# The store refines a map whose values expire

`CacheStore` is bounded in entries and in bytes, elects refreshers and drops what has expired. Seen from a lookup it is a
`TtlMap` of the accepted puts that may forget: `Refines` is the simulation, `refines_step` is one step of it, and
`lookup_refines` reads off what every lookup of every run answers.
-/

namespace WebPipe
namespace CacheStore

open Lru Ttl

/-! ## The abstract map of a run -/

/-- The slot an accepted put records: fresh for the TTL, stale for the grace window after it. -/
def slotOf (s : CacheStore) (now : Nat) (response : CachedResponse) (ttlSecs : Option Nat) : Slot CachedResponse Nat :=
  { value := response
    freshUntil := now + fromSecs (ttlSecs.getD s.defaultTtlSecs)
    staleUntil := now + fromSecs (ttlSecs.getD s.defaultTtlSecs + s.swrGraceSecs)
    ordered := Nat.add_le_add_left (Nat.mul_le_mul_right _ (Nat.le_add_right _ _)) _ }

/-- A call on the abstract map, under the limits of a store: only an accepted put changes it. -/
def recordCall (limits : CacheStore) (m : TtlMap String CachedResponse Nat) :
    Nat × CacheCall → TtlMap String CachedResponse Nat
  | (now, .put key response ttlSecs) =>
    if limits.Accepts response ttlSecs then record m key (limits.slotOf now response ttlSecs) else m
  | _ => m

/-- The most recent accepted put of each key of a run. -/
def lastAccepted (limits : CacheStore) (calls : List (Nat × CacheCall)) : TtlMap String CachedResponse Nat :=
  Runs.after (recordCall limits) Ttl.empty calls

/-- The TTL and the grace window of a put are within the range of the clock. -/
def InRange (s : CacheStore) : Nat × CacheCall → Prop
  | (now, .put _ _ ttlSecs) =>
    ttlSecs.getD s.defaultTtlSecs + s.swrGraceSecs < 2 ^ 64 ∧
      now + fromSecs (ttlSecs.getD s.defaultTtlSecs + s.swrGraceSecs) ≤ s.clockMax
  | _ => True

instance (s : CacheStore) : (c : Nat × CacheCall) → Decidable (s.InRange c)
  | (_, .put ..) => inferInstanceAs (Decidable (_ ∧ _))
  | (_, .lookup _) => inferInstanceAs (Decidable True)
  | (_, .clearRefresh _) => inferInstanceAs (Decidable True)

/-- What a lookup answers, without who is elected to refresh. -/
def answerOf : CacheLookup → Answer CachedResponse
  | .fresh r => .fresh r
  | .stale r => .stale r
  | .refresh r => .stale r
  | .miss => .miss

/-! ## The counter never exceeds what is resident -/

/-- The counter is at most the sum of the resident sizes. -/
def Undercounts (s : CacheStore) : Prop := s.currentSize ≤ s.residentSize

/-- `makeRoom` keeps the counter at most the sum of what is left. -/
theorem undercounts_makeRoom {s : CacheStore} (h : s.Undercounts) (key : String) (n : Nat) :
    (s.makeRoom key n).1 ≤ pairsSize (s.makeRoom key n).2.entries := by
  obtain ⟨P, hP, hc, -⟩ := makeRoom_spec s key n
  have hr : s.residentSize = pairsSize P + pairsSize (s.makeRoom key n).2.entries := by
    rw [residentSize, weight_eq_pairsSize, hP, pairsSize_append]
  have hstart : s.startSize key ≤ s.currentSize := by
    unfold startSize
    split
    · exact Nat.sub_le _ _
    · exact Nat.le_refl _
  have hu : s.currentSize ≤ s.residentSize := h
  omega

/-- An insertion counts no more than the store holds. -/
theorem undercounts_insertEntry (s : CacheStore) {size : Nat} {guard : LruCache String CacheEntry} (key : String)
    (entry : CacheEntry) (h : size ≤ pairsSize guard.entries) : (s.insertEntry size guard key entry).Undercounts := by
  have hres := residentSize_insertEntry s size guard key entry
  have hret := returnedSize_push_le guard key entry
  have hcur : (s.insertEntry size guard key entry).currentSize =
      size - returnedSize (guard.push key entry).1 + entry.sizeBytes := by
    rw [insertEntry_eq]
  rw [Undercounts, hcur]
  omega

/-- An entry that keeps its size keeps the count. -/
theorem Undercounts.touch {s : CacheStore} (h : s.Undercounts) (key : String) {f : CacheEntry → CacheEntry}
    (hf : ∀ e, (f e).sizeBytes = e.sizeBytes) : ({ s with inner := s.inner.touch key f } : CacheStore).Undercounts :=
  le_of_le_of_eq h (LruCache.weight_touch CacheEntry.sizeBytes s.inner key f hf).symm

/-- Every call keeps the counter at most the sum of the resident sizes. -/
theorem undercounts_step {s : CacheStore} (h : s.Undercounts) (c : Nat × CacheCall) : (s.step c).Undercounts := by
  obtain ⟨now, c⟩ := c
  cases c with
  | put key response ttlSecs =>
    change (s.putResponse now key response ttlSecs).2.Undercounts
    rcases putResponse_cases s now key response ttlSecs with
      ⟨-, -, hp⟩ | ⟨-, room, rfl, ⟨-, hp⟩ | ⟨-, -, hp⟩ | ⟨-, d, -, hp⟩⟩
    · rw [hp]
      exact h
    · rw [hp]
      exact undercounts_makeRoom h key _
    · rw [hp]
      exact undercounts_makeRoom h key _
    · rw [hp]
      exact undercounts_insertEntry s key _ (undercounts_makeRoom h key _)
  | lookup key =>
    change (s.lookup now key).2.Undercounts
    rcases lookup_cases s now key with ⟨-, hl⟩ | ⟨e, hp, ⟨-, hl⟩ | ⟨-, -, -, hl⟩ | ⟨-, -, -, hl⟩ | ⟨-, -, hl⟩⟩
    · rw [hl]
      exact h
    · rw [hl]
      exact h.touch key fun _ => rfl
    · rw [hl]
      exact h.touch key fun _ => rfl
    · rw [hl]
      exact h.touch key fun _ => rfl
    · rw [hl]
      have hw : s.residentSize = e.sizeBytes + (s.inner.erase key).weight CacheEntry.sizeBytes :=
        LruCache.weight_erase CacheEntry.sizeBytes hp
      have hu : s.currentSize ≤ s.residentSize := h
      change s.currentSize - e.sizeBytes ≤ (s.inner.erase key).weight CacheEntry.sizeBytes
      omega
  | clearRefresh key => exact h.touch key fun _ => rfl

/-! ## Which puts are stored -/

/-- A put in range has the deadlines of its slot. -/
theorem deadlines_of_inRange {s : CacheStore} {now : Nat} {key : String} {response : CachedResponse}
    {ttlSecs : Option Nat} (h : s.InRange (now, .put key response ttlSecs)) :
    s.deadlines now (ttlSecs.getD s.defaultTtlSecs) =
      some ((s.slotOf now response ttlSecs).freshUntil, (s.slotOf now response ttlSecs).staleUntil) := by
  obtain ⟨hu, hc⟩ := h
  have hadd : addU64 (ttlSecs.getD s.defaultTtlSecs) s.swrGraceSecs = ttlSecs.getD s.defaultTtlSecs + s.swrGraceSecs :=
    Nat.mod_eq_of_lt hu
  have hle := (s.slotOf now response ttlSecs).ordered
  rw [deadlines_eq, hadd, if_pos ⟨Nat.le_trans hle hc, hc⟩]
  rfl

/-- Eviction finds room for every entry that is not too large by itself. -/
theorem tooLarge_of_no_room {s : CacheStore} (hu : s.Undercounts) {key : String} {n : Nat}
    (hlarge : s.maxTotalSize < (s.makeRoom key n).1 + n) : s.maxTotalSize < n := by
  -- nothing is left, so the counter is zero
  have hle := undercounts_makeRoom hu key n
  obtain ⟨P, -, -, he | hle'⟩ := makeRoom_spec s key n
  · rw [he, pairsSize_nil] at hle
    omega
  · omega

/-- A put in the range of the clock is stored exactly when it is accepted: eviction always finds the room. -/
theorem stored_iff_accepts {s : CacheStore} (hu : s.Undercounts) {now : Nat} {key : String} {response : CachedResponse}
    {ttlSecs : Option Nat} (hr : s.InRange (now, .put key response ttlSecs)) :
    (s.putResponse now key response ttlSecs).1 = .stored ↔ s.Accepts response ttlSecs := by
  rcases putResponse_cases s now key response ttlSecs with
    ⟨hna, hne, -⟩ | ⟨ha, room, hroom, ⟨hlarge, hp⟩ | ⟨-, hd, hp⟩ | ⟨hfit, d, -, hp⟩⟩
  · exact ⟨fun h => absurd h hne, fun h => absurd h.1 hna⟩
  · rw [← hroom] at hlarge
    have hlt := tooLarge_of_no_room hu hlarge
    rw [hp]
    exact ⟨nofun, fun h => absurd h.2 (by omega)⟩
  · rw [deadlines_of_inRange hr] at hd
    cases hd
  · rw [hp]
    exact ⟨fun _ => ⟨ha, by omega⟩, fun _ => rfl⟩

/-- The put computes no deadlines, or ones that the clock can represent. -/
def InTime (s : CacheStore) (now : Nat) (response : CachedResponse) (ttlSecs : Option Nat) : Prop :=
  s.Accepts response ttlSecs → (s.deadlines now (ttlSecs.getD s.defaultTtlSecs)).isSome

/-- A put panics exactly when it is accepted and the clock cannot represent its deadlines. -/
theorem panicked_iff_not_inTime {s : CacheStore} (hu : s.Undercounts) (now : Nat) (key : String) (response : CachedResponse)
    (ttlSecs : Option Nat) : (s.putResponse now key response ttlSecs).1 = .panicked ↔ ¬ s.InTime now response ttlSecs := by
  rcases putResponse_cases s now key response ttlSecs with
    ⟨hna, -, -⟩ | ⟨ha, room, hroom, ⟨hlarge, hp⟩ | ⟨hfit, hd, hp⟩ | ⟨-, d, hd, hp⟩⟩
  · refine ⟨fun h => absurd h ?_, fun h => absurd (fun hacc => absurd hacc.1 hna) h⟩
    exact (putResponse_of_not_admits hna now key).2.1
  · rw [← hroom] at hlarge
    have hlt := tooLarge_of_no_room hu hlarge
    rw [hp]
    exact ⟨nofun, fun h => absurd (fun hacc => absurd hacc.2 (Nat.not_le.mpr hlt)) h⟩
  · rw [hp]
    refine ⟨fun _ h => ?_, fun _ => rfl⟩
    have hsome := h ⟨ha, by omega⟩
    rw [hd] at hsome
    cases hsome
  · rw [hp]
    refine ⟨nofun, fun h => absurd (fun _ => ?_) h⟩
    rw [hd]
    rfl

/-! ## The simulation -/

/-- The store simulates the abstract map: it has the limits, and every resident entry is the last accepted put of its key. -/
structure Refines (limits s : CacheStore) (m : TtlMap String CachedResponse Nat) : Prop where
  limits : limits.SameLimits s
  undercounts : s.Undercounts
  resident : ∀ k e, s.inner.peek k = some e →
    ∃ slot, m k = some slot ∧ slot.value = e.response ∧ slot.freshUntil = e.freshUntil ∧
      slot.staleUntil = e.staleUntil

/-- The limits of a store decide what it accepts and how long a put lives. -/
theorem SameLimits.accepts {s s' : CacheStore} (h : s.SameLimits s') (now : Nat) (response : CachedResponse)
    (ttlSecs : Option Nat) :
    (s'.Accepts response ttlSecs ↔ s.Accepts response ttlSecs) ∧
      s'.slotOf now response ttlSecs = s.slotOf now response ttlSecs ∧
      ∀ c, s'.InRange c ↔ s.InRange c := by
  obtain ⟨h1, h2, h3, h4, -, h6⟩ := h
  refine ⟨?_, ?_, ?_⟩
  · simp only [Accepts, Admits, h1, h2, h3]
  · simp only [slotOf, h1, h4]
  · rintro ⟨now, c⟩
    cases c <;> simp only [InRange, h1, h4, h6]

/-- The limits of a store decide which puts are in time. -/
theorem SameLimits.inTime {s s' : CacheStore} (h : s.SameLimits s') (now : Nat) (response : CachedResponse) (ttlSecs : Option Nat) :
    s'.InTime now response ttlSecs ↔ s.InTime now response ttlSecs := by
  have haccepts := (h.accepts now response ttlSecs).1
  obtain ⟨h1, -, -, h4, -, h6⟩ := h
  unfold InTime
  rw [haccepts, deadlines_eq, deadlines_eq, h1, h4, h6]

/-- An empty store refines the empty map. -/
theorem refines_ofSettings (cfg : CacheSettings) : Refines (ofSettings cfg) (ofSettings cfg) Ttl.empty where
  limits := SameLimits.refl _
  undercounts := Nat.zero_le _
  resident := by
    intro k e h
    rw [peek_ofSettings] at h
    cases h

/-- One call keeps the simulation. -/
theorem refines_step {limits s : CacheStore} {m : TtlMap String CachedResponse Nat} (h : Refines limits s m)
    {c : Nat × CacheCall} (hr : limits.InRange c) : Refines limits (s.step c) (recordCall limits m c) := by
  obtain ⟨now, c⟩ := c
  refine ⟨h.limits.trans (sameLimits_call s now c), undercounts_step h.undercounts (now, c), ?_⟩
  intro k e he
  cases c with
  | put key response ttlSecs =>
    obtain ⟨hacc, hslot, hrange⟩ := h.limits.accepts now response ttlSecs
    have hstored := stored_iff_accepts h.undercounts ((hrange _).mpr hr)
    rw [recordCall]
    rcases peek_putResponse he with ⟨hp, hne⟩ | ⟨rfl, hst, -, d, hd, rfl⟩
    · by_cases ha : limits.Accepts response ttlSecs
      · rw [if_pos ha, record_of_ne fun hk => hne hk (hstored.mpr (hacc.mpr ha))]
        exact h.resident k e hp
      · rw [if_neg ha]
        exact h.resident k e hp
    · rw [if_pos (hacc.mp (hstored.mp hst)), record_self]
      rw [deadlines_of_inRange ((hrange _).mpr hr), hslot] at hd
      cases hd
      exact ⟨_, rfl, rfl, rfl, rfl⟩
  | lookup key =>
    obtain ⟨e', slot, hp, rfl, -⟩ := peek_lookup he
    exact h.resident k e' hp
  | clearRefresh key =>
    have he : (s.clearRefresh key).inner.peek k = some e := he
    rw [peek_clearRefresh] at he
    by_cases hk : k = key
    · rw [if_pos hk, Option.map_eq_some_iff] at he
      obtain ⟨e', hp, rfl⟩ := he
      exact h.resident k e' (hk ▸ hp)
    · rw [if_neg hk] at he
      exact h.resident k e he

/-- The simulation holds all along a run. -/
theorem refines_run {limits s : CacheStore} {m : TtlMap String CachedResponse Nat} (h : Refines limits s m)
    (calls : List (Nat × CacheCall)) (hr : ∀ c ∈ calls, limits.InRange c) :
    Refines limits (s.run calls) (Runs.after (recordCall limits) m calls) := by
  induction calls generalizing s m with
  | nil => exact h
  | cons c calls ih => exact ih (refines_step h (hr c (by simp))) fun c' hc => hr c' (by simp [hc])

/-- Where the simulation holds, the map permits what a lookup answers. -/
theorem Refines.permits {limits s : CacheStore} {m : TtlMap String CachedResponse Nat} (h : Refines limits s m)
    (now : Nat) (key : String) : Permits m now key (answerOf (s.lookup now key).1) := by
  rcases lookup_cases s now key with ⟨-, hl⟩ | ⟨e, hp, ⟨hf, hl⟩ | ⟨hf, hs, -, hl⟩ | ⟨hf, hs, -, hl⟩ | ⟨-, -, hl⟩⟩
  · rw [hl]
    trivial
  · obtain ⟨slot, hm, hv, h1, -⟩ := h.resident key e hp
    rw [hl]
    exact ⟨slot, hm, hv, by omega⟩
  · obtain ⟨slot, hm, hv, h1, h2⟩ := h.resident key e hp
    rw [hl]
    exact ⟨slot, hm, hv, by omega, by omega⟩
  · obtain ⟨slot, hm, hv, h1, h2⟩ := h.resident key e hp
    rw [hl]
    exact ⟨slot, hm, hv, by omega, by omega⟩
  · rw [hl]
    trivial

/-- Every lookup of every run: a hit is the response of the last accepted put of the key, fresh for its TTL and stale for the
grace window after it; past both the lookup misses, as it does for a key that was never put. -/
theorem lookup_refines (cfg : CacheSettings) (calls : List (Nat × CacheCall)) (hr : ∀ c ∈ calls, (ofSettings cfg).InRange c)
    (now : Nat) (key : String) :
    Permits (lastAccepted (ofSettings cfg) calls) now key (answerOf (((ofSettings cfg).run calls).lookup now key).1) ∧
      ∀ slot, lastAccepted (ofSettings cfg) calls key = some slot → slot.staleUntil ≤ now →
        (((ofSettings cfg).run calls).lookup now key).1 = .miss := by
  have hp := (refines_run (refines_ofSettings cfg) calls hr).permits now key
  refine ⟨hp, fun slot hk hs => ?_⟩
  have hmiss := hp.miss_of_expired hk hs
  cases hl : (((ofSettings cfg).run calls).lookup now key).1 with
  | miss => rfl
  | _ =>
    rw [hl] at hmiss
    cases hmiss

/-- The calls of a page that is cached, read, and read again after another page went stale. -/
def twoPages : List (Nat × CacheCall) :=
  [(0, .put "a" { body := .string "page a", contentType := "text/html", statusCode := some 200 } none),
    (fromSecs 1, .put "b" { body := .string "page b", contentType := "text/html", statusCode := none } (some 5)),
    (fromSecs 7, .lookup "b"), (fromSecs 8, .lookup "a")]

/-- The page that is kept for five seconds is looked up afterwards. -/
theorem lookup_refines_twoPages :
    Permits (lastAccepted (ofSettings (.ofNew 16 60 (fromSecs 100000))) twoPages) (fromSecs 9) "b"
        (answerOf (((ofSettings (.ofNew 16 60 (fromSecs 100000))).run twoPages).lookup (fromSecs 9) "b").1) ∧
      ∀ slot, lastAccepted (ofSettings (.ofNew 16 60 (fromSecs 100000))) twoPages "b" = some slot →
        slot.staleUntil ≤ fromSecs 9 →
          (((ofSettings (.ofNew 16 60 (fromSecs 100000))).run twoPages).lookup (fromSecs 9) "b").1 = .miss :=
  lookup_refines (.ofNew 16 60 (fromSecs 100000)) twoPages (by decide) (fromSecs 9) "b"

end CacheStore
end WebPipe
