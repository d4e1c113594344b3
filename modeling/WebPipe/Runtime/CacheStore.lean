import WebPipe.Json
import WebPipe.Lib.Lru
import WebPipe.Lib.Runs

/-!
# The response cache

`CacheStore` of `runtime/context.rs`: a bounded LRU map of responses with a byte budget and stale-while-revalidate. Each call
takes the clock reading it works with as an argument, in nanoseconds; `clockMax` is the largest `Instant` of the platform, and
an addition past it panics. The two mutexes are always taken in the same order, so a call is one step of the store.
-/

namespace WebPipe

open Lru

/-- Nanoseconds in a second. -/
def nanosPerSec : Nat := 1000000000

/-- `Duration::from_secs`. -/
def fromSecs (secs : Nat) : Nat := secs * nanosPerSec

/-- `Duration::as_secs`. -/
def asSecs (nanos : Nat) : Nat := nanos / nanosPerSec

/-- Addition of two `u64` in a release build. -/
def addU64 (a b : Nat) : Nat := (a + b) % 2 ^ 64

/-- How the program is built: on overflow the arithmetic of a debug build panics where that of a release build wraps. -/
inductive Build where
  | debug
  | release
deriving DecidableEq, Repr

/-- What an operation on `u64` gives, by its exact result; nothing is a panic. -/
def Build.u64 (b : Build) (exact : Nat) : Option Nat :=
  if exact < 2 ^ 64 then some exact
  else
    match b with
    | .debug => none
    | .release => some (exact % 2 ^ 64)

theorem Build.u64_release (a b : Nat) : Build.u64 .release (a + b) = some (addU64 a b) := by
  unfold Build.u64 addU64
  by_cases h : a + b < 2 ^ 64
  · rw [if_pos h, Nat.mod_eq_of_lt h]
  · rw [if_neg h]

/-- A cached pipeline response: the final state plus the metadata needed to replay it. -/
structure CachedResponse where
  body : Value
  contentType : String
  statusCode : Option Nat
deriving Repr

/-- A resident entry; `refreshStarted` is set while a caller is elected to refresh it. -/
structure CacheEntry where
  response : CachedResponse
  freshUntil : Nat
  staleUntil : Nat
  refreshStarted : Option Nat
  sizeBytes : Nat
deriving Repr

/-- Outcome of a lookup with stale-while-revalidate semantics. -/
inductive CacheLookup where
  | fresh (response : CachedResponse)
  | stale (response : CachedResponse)
  | refresh (response : CachedResponse)
  | miss
deriving Repr

/-- What became of a `putResponse`; the source only logs it. -/
inductive PutOutcome where
  | ttlZero
  | entryTooLarge
  | totalTooLarge
  | panicked
  | stored
deriving DecidableEq, Repr

/-- The store: the LRU map, its limits, and the counter of resident bytes. -/
structure CacheStore where
  inner : LruCache String CacheEntry
  defaultTtlSecs : Nat
  maxEntrySize : Nat
  maxTotalSize : Nat
  swrGraceSecs : Nat
  refreshTakeoverSecs : Nat
  currentSize : Nat
  clockMax : Nat

/-- What a store is built from, and the range of the platform's clock. -/
structure CacheSettings where
  maxEntries : Nat
  defaultTtlSecs : Nat
  maxEntrySize : Nat
  maxTotalSize : Nat
  swrGraceSecs : Nat
  refreshTakeoverSecs : Nat
  clockMax : Nat

/-- `CacheStore::new`: the default limits and windows. -/
def CacheSettings.ofNew (maxEntries defaultTtlSecs clockMax : Nat) : CacheSettings :=
  { maxEntries := maxEntries, defaultTtlSecs := defaultTtlSecs, maxEntrySize := 1048576, maxTotalSize := 10485760,
    swrGraceSecs := 30, refreshTakeoverSecs := 30, clockMax := clockMax }

namespace CacheStore

/-- A new store; a capacity of zero stands for 1024. -/
def newWithLimits (maxEntries defaultTtlSecs maxEntrySize maxTotalSize clockMax : Nat) : CacheStore :=
  { inner := LruCache.new (if maxEntries = 0 then 1024 else maxEntries) (by split <;> omega)
    defaultTtlSecs := defaultTtlSecs
    maxEntrySize := maxEntrySize
    maxTotalSize := maxTotalSize
    swrGraceSecs := 30
    refreshTakeoverSecs := 30
    currentSize := 0
    clockMax := clockMax }

/-- Set the stale-while-revalidate grace window. -/
def withSwrGrace (s : CacheStore) (secs : Nat) : CacheStore := { s with swrGraceSecs := secs }

/-- Set how long a refresher may hold the refresh slot before takeover. -/
def withRefreshTakeover (s : CacheStore) (secs : Nat) : CacheStore := { s with refreshTakeoverSecs := secs }

/-- The store made from settings. -/
def ofSettings (cfg : CacheSettings) : CacheStore :=
  ((newWithLimits cfg.maxEntries cfg.defaultTtlSecs cfg.maxEntrySize cfg.maxTotalSize cfg.clockMax).withSwrGrace
    cfg.swrGraceSecs).withRefreshTakeover cfg.refreshTakeoverSecs

@[simp] theorem peek_ofSettings (cfg : CacheSettings) (key : String) : (ofSettings cfg).inner.peek key = none := rfl

/-- The size of a JSON value: the length of its compact text in bytes. -/
def estimateSize (v : Value) : Nat := v.toJson.utf8ByteSize

/-- A stale entry may be claimed: nobody is refreshing it, or the refresher has had its time. -/
def canTakeOver (s : CacheStore) (now : Nat) (entry : CacheEntry) : Bool :=
  match entry.refreshStarted with
  | none => true
  | some started => decide (s.refreshTakeoverSecs ≤ asSecs (now - started))

/-- `lookup`: serve a fresh entry, elect a refresher or serve stale in the grace window, drop the entry after it. -/
def lookup (s : CacheStore) (now : Nat) (key : String) : CacheLookup × CacheStore :=
  match s.inner.peek key with
  | none => (.miss, s)
  | some entry =>
    -- `get_mut` makes the entry the most recently used in every case
    if now < entry.freshUntil then (.fresh entry.response, { s with inner := s.inner.touch key id })
    else if now < entry.staleUntil then
      if s.canTakeOver now entry then
        (.refresh entry.response,
          { s with inner := s.inner.touch key (fun e => { e with refreshStarted := some now }) })
      else (.stale entry.response, { s with inner := s.inner.touch key id })
    else (.miss, { s with inner := s.inner.erase key, currentSize := s.currentSize - entry.sizeBytes })

/-- `clear_refresh`: release the refresh slot of a key. -/
def clearRefresh (s : CacheStore) (key : String) : CacheStore :=
  { s with inner := s.inner.touch key (fun e => { e with refreshStarted := none }) }

/-- The first part of `put_response` under the locks: subtract the old size of the key, then evict from the LRU end until the
entry fits. -/
def makeRoom (s : CacheStore) (key : String) (entrySize : Nat) : Nat × LruCache String CacheEntry :=
  let size := match s.inner.peek key with
    | some old => s.currentSize - old.sizeBytes
    | none => s.currentSize
  s.inner.evictWhile (fun size => decide (s.maxTotalSize < size + entrySize)) (fun size e => size - e.sizeBytes) size

/-- The new entry's two deadlines in a build, when the clock can represent them. -/
def deadlinesIn (b : Build) (s : CacheStore) (now ttl : Nat) : Option (Nat × Nat) :=
  let freshUntil := now + fromSecs ttl
  (b.u64 (ttl + s.swrGraceSecs)).bind fun staleSecs =>
    let staleUntil := now + fromSecs staleSecs
    if freshUntil ≤ s.clockMax ∧ staleUntil ≤ s.clockMax then some (freshUntil, staleUntil) else none

/-- The deadlines in a release build. -/
def deadlines (s : CacheStore) (now ttl : Nat) : Option (Nat × Nat) := s.deadlinesIn .release now ttl

theorem deadlines_eq (s : CacheStore) (now ttl : Nat) :
    s.deadlines now ttl =
      if now + fromSecs ttl ≤ s.clockMax ∧ now + fromSecs (addU64 ttl s.swrGraceSecs) ≤ s.clockMax then
        some (now + fromSecs ttl, now + fromSecs (addU64 ttl s.swrGraceSecs))
      else none := by
  unfold deadlines deadlinesIn
  dsimp only
  rw [Build.u64_release, Option.bind_some]

/-- The last part of `put_response`: insert the entry and count it. -/
def insertEntry (s : CacheStore) (size : Nat) (guard : LruCache String CacheEntry) (key : String) (entry : CacheEntry) :
    CacheStore :=
  let (evicted, guard) := guard.push key entry
  -- `push` also returns the pair it replaced, not only one it evicted
  let size := match evicted with
    | some (_, e) => size - e.sizeBytes
    | none => size
  { s with inner := guard, currentSize := size + entry.sizeBytes }

/-- `put_response` in a build: insert or overwrite a cached response. -/
def putResponseIn (b : Build) (s : CacheStore) (now : Nat) (key : String) (response : CachedResponse) (ttlSecs : Option Nat) :
    PutOutcome × CacheStore :=
  let ttl := ttlSecs.getD s.defaultTtlSecs
  if ttl = 0 then (.ttlZero, s)
  else
    let entrySize := estimateSize response.body
    if s.maxEntrySize < entrySize then (.entryTooLarge, s)
    else
      let (size, guard) := s.makeRoom key entrySize
      if s.maxTotalSize < size + entrySize then (.totalTooLarge, { s with inner := guard, currentSize := size })
      else
        match s.deadlinesIn b now ttl with
        | none => (.panicked, { s with inner := guard, currentSize := size })
        | some (freshUntil, staleUntil) =>
          (.stored, s.insertEntry size guard key
            { response := response, freshUntil := freshUntil, staleUntil := staleUntil, refreshStarted := none,
              sizeBytes := entrySize })

/-- `put_response` in a release build. -/
def putResponse (s : CacheStore) (now : Nat) (key : String) (response : CachedResponse) (ttlSecs : Option Nat) :
    PutOutcome × CacheStore := s.putResponseIn .release now key response ttlSecs

end CacheStore

/-- A call on a store. -/
inductive CacheCall where
  | put (key : String) (response : CachedResponse) (ttlSecs : Option Nat)
  | lookup (key : String)
  | clearRefresh (key : String)

namespace CacheStore

/-- The store after a call made at a clock reading. -/
def call (s : CacheStore) (now : Nat) : CacheCall → CacheStore
  | .put key response ttlSecs => (s.putResponse now key response ttlSecs).2
  | .lookup key => (s.lookup now key).2
  | .clearRefresh key => s.clearRefresh key

/-- One call with its clock reading, as a step of the store. -/
def step (s : CacheStore) (c : Nat × CacheCall) : CacheStore := s.call c.1 c.2

/-- The store after a sequence of calls, each with its clock reading. -/
def run (s : CacheStore) (calls : List (Nat × CacheCall)) : CacheStore := Runs.after step s calls

end CacheStore

end WebPipe
