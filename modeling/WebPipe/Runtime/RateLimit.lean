import WebPipe.Runtime.CacheStore

/-!
# Rate limiting

`RateLimitStore` of `runtime/context.rs`: a counter for each key in a bounded LRU map. A window starts with the first request of
a key and is reset by the first request after its end. A call reads the clock before it takes the lock.
-/

namespace WebPipe

open Lru

/-- A counter: the requests of the current window, when it started, and its duration. -/
structure RateLimitEntry where
  count : Nat
  windowStart : Nat
  windowSecs : Nat
deriving DecidableEq, Repr

/-- The counters of all keys. -/
structure RateLimitStore where
  inner : LruCache String RateLimitEntry

/-- What a call is given. -/
structure RateLimitCall where
  key : String
  limit : Nat
  windowSecs : Nat
  burst : Option Nat
deriving DecidableEq, Repr

/-- What a call answers. -/
structure RateLimitAnswer where
  allowed : Bool
  currentCount : Nat
  limit : Nat
  retryAfterSecs : Nat
deriving DecidableEq, Repr

/-- The limit with the burst, as the sum of two `u64`. -/
def RateLimitCall.effectiveLimit (c : RateLimitCall) : Nat := addU64 c.limit (c.burst.getD 0)

namespace RateLimitStore

theorem capacity_pos (maxEntries : Nat) : 0 < if maxEntries = 0 then 10000 else maxEntries := by
  split <;> omega

/-- An empty store; a capacity of zero stands for 10000. -/
def new (maxEntries : Nat) : RateLimitStore :=
  { inner := LruCache.new (if maxEntries = 0 then 10000 else maxEntries) (capacity_pos maxEntries) }

/-- `check_and_increment`, at a clock reading. -/
def checkAndIncrement (s : RateLimitStore) (now : Nat) (c : RateLimitCall) : RateLimitAnswer × RateLimitStore :=
  match s.inner.peek c.key with
  | some entry =>
    let elapsed := now - entry.windowStart
    let windowDuration := fromSecs entry.windowSecs
    if windowDuration ≤ elapsed then
      ({ allowed := true, currentCount := 1, limit := c.effectiveLimit, retryAfterSecs := c.windowSecs },
        { inner := s.inner.touch c.key fun _ => { count := 1, windowStart := now, windowSecs := c.windowSecs } })
    else if entry.count < c.effectiveLimit then
      ({ allowed := true, currentCount := entry.count + 1, limit := c.effectiveLimit,
         retryAfterSecs := asSecs (windowDuration - elapsed) },
        { inner := s.inner.touch c.key fun e => { e with count := e.count + 1 } })
    else
      -- `get_mut` makes the entry the most recently used here too
      ({ allowed := false, currentCount := entry.count, limit := c.effectiveLimit,
         retryAfterSecs := asSecs (windowDuration - elapsed) },
        { inner := s.inner.touch c.key id })
  | none =>
    ({ allowed := true, currentCount := 1, limit := c.effectiveLimit, retryAfterSecs := c.windowSecs },
      { inner := (s.inner.push c.key { count := 1, windowStart := now, windowSecs := c.windowSecs }).2 })

/-- `check_and_increment` in a build; it begins with the sum of the limit and the burst. -/
def checkAndIncrementIn (b : Build) (s : RateLimitStore) (now : Nat) (c : RateLimitCall) :
    Option (RateLimitAnswer × RateLimitStore) :=
  (b.u64 (c.limit + c.burst.getD 0)).map fun _ => s.checkAndIncrement now c

/-- A key has a window that has not ended. -/
def hasLiveWindow (s : RateLimitStore) (key : String) (now : Nat) : Bool :=
  (s.inner.peek key).any fun entry => decide (now - entry.windowStart < fromSecs entry.windowSecs)

/-- The counter that a call on a key pushes out: the least recently used one of a full store, when the key is new. -/
def victim (s : RateLimitStore) (key : String) : Option (String × RateLimitEntry) :=
  match s.inner.peek key with
  | some _ => none
  | none => if s.inner.entries.length = s.inner.cap then s.inner.entries.head? else none

/-! ## One call -/

/-- A key without a live window gets a new one, and the call is allowed. -/
theorem checkAndIncrement_opens {s : RateLimitStore} {now : Nat} {c : RateLimitCall}
    (h : s.hasLiveWindow c.key now = false) :
    (s.checkAndIncrement now c).1.allowed = true ∧
      (s.checkAndIncrement now c).2.inner.peek c.key =
        some { count := 1, windowStart := now, windowSecs := c.windowSecs } := by
  unfold checkAndIncrement
  unfold hasLiveWindow at h
  cases hp : s.inner.peek c.key with
  | none => exact ⟨rfl, LruCache.peek_push_self _ _ _⟩
  | some entry =>
    rw [hp, Option.any_some, decide_eq_false_iff_not, Nat.not_lt] at h
    dsimp only
    rw [if_pos h]
    exact ⟨rfl, by rw [LruCache.peek_touch, if_pos rfl, hp, Option.map_some]⟩

/-- A call in a live window is allowed and counted below the limit, and refused from the limit on. -/
theorem checkAndIncrement_live {s : RateLimitStore} {now : Nat} {c : RateLimitCall} {entry : RateLimitEntry}
    (hp : s.inner.peek c.key = some entry) (hlive : now - entry.windowStart < fromSecs entry.windowSecs) :
    (s.checkAndIncrement now c).1.allowed = decide (entry.count < c.effectiveLimit) ∧
      (s.checkAndIncrement now c).2.inner.peek c.key =
        some (if entry.count < c.effectiveLimit then { entry with count := entry.count + 1 } else entry) := by
  have hnot : ¬fromSecs entry.windowSecs ≤ now - entry.windowStart := Nat.not_le.mpr hlive
  unfold checkAndIncrement
  rw [hp]
  dsimp only
  rw [if_neg hnot]
  by_cases hcount : entry.count < c.effectiveLimit
  · rw [if_pos hcount, if_pos hcount]
    exact ⟨(decide_eq_true hcount).symm, by rw [LruCache.peek_touch, if_pos rfl, hp, Option.map_some]⟩
  · rw [if_neg hcount, if_neg hcount]
    exact ⟨(decide_eq_false hcount).symm, by rw [LruCache.peek_touch, if_pos rfl, hp, Option.map_some, id]⟩

/-- The counter of another key stays, unless the call pushes it out. -/
theorem checkAndIncrement_other {s : RateLimitStore} {now : Nat} {c : RateLimitCall} {key : String}
    {entry : RateLimitEntry} (hne : key ≠ c.key) (hp : s.inner.peek key = some entry)
    (hv : s.victim c.key ≠ some (key, entry)) :
    (s.checkAndIncrement now c).2.inner.peek key = some entry := by
  unfold checkAndIncrement
  unfold victim at hv
  cases hc : s.inner.peek c.key with
  | some own =>
    dsimp only
    split
    · simp [LruCache.peek_touch, hne, hp]
    · split
      · simp [LruCache.peek_touch, hne, hp]
      · simp [LruCache.peek_touch, hne, hp]
  | none =>
    dsimp only
    rw [LruCache.peek_eq_some_iff, (LruCache.push_of_none _ hc).2, List.mem_append]
    have hmem := (s.inner.peek_eq_some_iff key entry).mp hp
    left
    split
    · next hfull =>
      simp only [hc, hfull, if_true] at hv
      cases he : s.inner.entries with
      | nil => simp [he] at hmem
      | cons first rest =>
        rw [he] at hmem hv
        rcases List.mem_cons.mp hmem with rfl | hrest
        · exact absurd rfl hv
        · exact hrest
    · exact hmem

end RateLimitStore

end WebPipe
