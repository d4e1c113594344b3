import WebPipe.Runtime.RateLimit

/-!
# The rate limit

Any number of clients call one store. A window of a key begins with an allowed call that found no live window, and the limit
says how many calls on the key it may allow. Two things break this: the call that opens a window is allowed without a look at the
limit, and the counter of a key that is not among the most recently used is dropped with its window. `rate_limit_kept` says
that the limit holds in every run in which neither matters.
-/

namespace WebPipe

open Lru

/-- A call that took the lock at an instant, `lag` nanoseconds after it had read the clock. -/
structure ServedCall where
  served : Nat
  lag : Nat
  call : RateLimitCall
deriving DecidableEq, Repr

/-- The clock reading of a call. -/
def ServedCall.now (e : ServedCall) : Nat := e.served - e.lag

namespace RateLimitStore

/-- One call as a step of the store. -/
def step (s : RateLimitStore) (e : ServedCall) : RateLimitStore := (s.checkAndIncrement e.now e.call).2

/-- The store allows a call. -/
def allows (s : RateLimitStore) (e : ServedCall) : Bool := (s.checkAndIncrement e.now e.call).1.allowed

/-- How many calls on a key are allowed and served before a deadline. -/
def allowedBefore (key : String) (deadline : Nat) : RateLimitStore → List ServedCall → Nat
  | _, [] => 0
  | s, e :: rest =>
    (if e.call.key = key ∧ e.served < deadline ∧ s.allows e = true then 1 else 0) +
      allowedBefore key deadline (s.step e) rest

/-- The calls are served in the order of the clock, and those on the key of `c` are all like `c`. -/
structure History (c : RateLimitCall) (calls : List ServedCall) : Prop where
  sorted : (calls.map ServedCall.served).Pairwise (· ≤ ·)
  fixed : ∀ e ∈ calls, e.call.key = c.key → e.call = c

/-- In a window that begins with an allowed call on the key of `c`, at most as many calls as the limit and the burst say are
allowed. -/
def WithinLimit (c : RateLimitCall) (s : RateLimitStore) (calls : List ServedCall) : Prop :=
  ∀ pre opener post, calls = pre ++ opener :: post → opener.call = c →
    (Runs.after step s pre).hasLiveWindow c.key opener.now = false → (Runs.after step s pre).allows opener = true →
    allowedBefore c.key (opener.now + fromSecs c.windowSecs) (Runs.after step s pre) (opener :: post) ≤
      c.limit + c.burst.getD 0

/-- A call does not push out the counter of a key before the end of its window. -/
def Spares (key : String) (s : RateLimitStore) (e : ServedCall) : Prop :=
  ∀ entry, s.victim e.call.key = some (key, entry) → entry.windowStart + fromSecs entry.windowSecs ≤ e.served

/-! ## One window -/

/-- The counter of the key of `c` stands at `n` in the window that started at an instant. -/
def CountsTo (c : RateLimitCall) (start n : Nat) (s : RateLimitStore) : Prop :=
  s.inner.peek c.key = some { count := n, windowStart := start, windowSecs := c.windowSecs }

variable {c : RateLimitCall} {s : RateLimitStore} {e : ServedCall} {start n : Nat}

/-- What follows the first call of a history is one. -/
theorem History.tail {calls : List ServedCall} (h : History c (e :: calls)) : History c calls where
  sorted := (List.pairwise_cons.mp h.sorted).2
  fixed := fun e' he' => h.fixed e' (List.mem_cons_of_mem _ he')

/-- No call is served before the first. -/
theorem History.le_head {calls : List ServedCall} (h : History c (e :: calls)) : ∀ e' ∈ calls, e.served ≤ e'.served := by
  intro e' he'
  exact (List.pairwise_cons.mp h.sorted).1 _ (List.mem_map_of_mem he')

/-- The later part of a history is one. -/
theorem History.append {pre post : List ServedCall} (h : History c (pre ++ post)) : History c post where
  sorted := by
    have hsorted := h.sorted
    rw [List.map_append] at hsorted
    exact (List.pairwise_append.mp hsorted).2.1
  fixed := fun e' he' => h.fixed e' (List.mem_append_right _ he')

/-- A call that finds no live window starts to count. -/
theorem countsTo_opener (hcall : e.call = c) (h : s.hasLiveWindow c.key e.now = false) :
    CountsTo c e.now 1 (s.step e) := by
  subst hcall
  exact (checkAndIncrement_opens h).2

/-- In the window a call on the key is counted below the limit. -/
theorem countsTo_own (hn : CountsTo c start n s) (hcall : e.call = c) (hlive : e.now - start < fromSecs c.windowSecs) :
    s.allows e = decide (n < c.effectiveLimit) ∧
      CountsTo c start (if n < c.effectiveLimit then n + 1 else n) (s.step e) := by
  subst hcall
  obtain ⟨hallowed, hpeek⟩ := checkAndIncrement_live hn hlive
  refine ⟨hallowed, ?_⟩
  rw [CountsTo, step, hpeek]
  by_cases hlt : n < e.call.effectiveLimit
  · rw [if_pos hlt, if_pos hlt]
  · rw [if_neg hlt, if_neg hlt]

/-- In the window a call on another key leaves the counter where it stands. -/
theorem countsTo_other (hn : CountsTo c start n s) (hne : e.call.key ≠ c.key) (hspares : Spares c.key s e)
    (hserved : e.served < start + fromSecs c.windowSecs) : CountsTo c start n (s.step e) := by
  refine checkAndIncrement_other (Ne.symm hne) hn fun hv => ?_
  exact absurd (hspares _ hv) (Nat.not_le.mpr hserved)

/-- No call is served before a deadline that has passed. -/
theorem allowedBefore_late {key : String} {deadline : Nat} {calls : List ServedCall} (s : RateLimitStore)
    (h : ∀ e ∈ calls, deadline ≤ e.served) : allowedBefore key deadline s calls = 0 := by
  induction calls generalizing s with
  | nil => rfl
  | cons e rest ih =>
    have hlate : ¬e.served < deadline := Nat.not_lt.mpr (h e List.mem_cons_self)
    simp [allowedBefore, hlate, ih (s.step e) fun e' he' => h e' (List.mem_cons_of_mem _ he')]

/-- The calls allowed in the rest of a window fill it up to the limit, and no further. -/
theorem allowedBefore_le (calls : List ServedCall) (hhistory : History c calls) (hstart : ∀ e ∈ calls, start ≤ e.served)
    (hspares : Runs.EveryStep step (Spares c.key) s calls) (hn : CountsTo c start n s) :
    n + allowedBefore c.key (start + fromSecs c.windowSecs) s calls ≤ max n c.effectiveLimit := by
  induction calls generalizing s n with
  | nil => exact Nat.le_max_left _ _
  | cons e rest ih =>
    by_cases hserved : e.served < start + fromSecs c.windowSecs
    · have hstart' : ∀ e' ∈ rest, start ≤ e'.served := fun e' he' => hstart e' (List.mem_cons_of_mem _ he')
      have hrest := fun {m} (hm : CountsTo c start m (s.step e)) => ih hhistory.tail hstart' hspares.tail hm
      by_cases hkey : e.call.key = c.key
      · have hcall := hhistory.fixed e List.mem_cons_self hkey
        have hlive : e.now - start < fromSecs c.windowSecs := by
          have hle := hstart e List.mem_cons_self
          have hnow : e.now ≤ e.served := Nat.sub_le _ _
          generalize fromSecs c.windowSecs = window at hserved ⊢
          omega
        obtain ⟨hallows, hcounts⟩ := countsTo_own hn hcall hlive
        by_cases hlt : n < c.effectiveLimit
        · rw [if_pos hlt] at hcounts
          have := hrest hcounts
          simp only [allowedBefore, hkey, hserved, hallows, hlt, decide_true, and_self, if_true]
          omega
        · rw [if_neg hlt] at hcounts
          have := hrest hcounts
          simp only [allowedBefore, hallows, hlt, decide_false, Bool.false_eq_true, and_false, if_false]
          omega
      · have := hrest (countsTo_other hn hkey hspares.first hserved)
        simp only [allowedBefore, hkey, false_and, if_false]
        omega
    · -- the window has ended, for this call and for every later one
      have hlate : ∀ e' ∈ e :: rest, start + fromSecs c.windowSecs ≤ e'.served := by
        intro e' he'
        rcases List.mem_cons.mp he' with rfl | he'
        · exact Nat.not_lt.mp hserved
        · exact Nat.le_trans (Nat.not_lt.mp hserved) (hhistory.le_head e' he')
      rw [allowedBefore_late s hlate]
      exact Nat.le_max_left _ _

end RateLimitStore

open RateLimitStore

/-- The limit is kept in every run in which the limit allows a call and no call pushes out the counter of the key before the end
of its window. -/
theorem rate_limit_kept (maxEntries : Nat) (c : RateLimitCall) (calls : List ServedCall) (hhistory : History c calls)
    (hpos : 0 < c.limit + c.burst.getD 0 ∨ c.windowSecs = 0)
    (hspares : Runs.EveryStep step (Spares c.key) (new maxEntries) calls) :
    WithinLimit c (new maxEntries) calls := by
  intro pre opener post hcalls hcall hnone hallows
  subst hcalls
  have hpost := hhistory.append
  have hle := hpost.le_head
  have hnow : opener.now ≤ opener.served := Nat.sub_le _ _
  have hbound := allowedBefore_le post hpost.tail (fun e he => Nat.le_trans hnow (hle e he))
    hspares.of_append.tail (countsTo_opener hcall hnone)
  have heff : c.effectiveLimit ≤ c.limit + c.burst.getD 0 := Nat.mod_le _ _
  rcases hpos with hpos | hzero
  · simp only [allowedBefore]
    split
    · omega
    · omega
  · -- a window of no length is over when it begins
    have hlate : ∀ e ∈ opener :: post, opener.now + fromSecs c.windowSecs ≤ e.served := by
      intro e he
      rw [hzero, fromSecs, Nat.zero_mul, Nat.add_zero]
      rcases List.mem_cons.mp he with rfl | he
      · exact hnow
      · exact Nat.le_trans hnow (hle e he)
    rw [allowedBefore_late _ hlate]
    exact Nat.zero_le _

/-- A client that may call once a minute. -/
def clientA : RateLimitCall := { key := "a", limit := 1, windowSecs := 60, burst := none }

/-- A client that calls twice within a minute, another client between the two calls, and a store of one counter. -/
def twoClients : List ServedCall :=
  [{ served := 0, lag := 0, call := clientA },
    { served := 1, lag := 0, call := { key := "b", limit := 1, windowSecs := 60, burst := none } },
    { served := 2, lag := 0, call := clientA }]

/-- The calls of two clients are a history. -/
theorem history_twoClients : History clientA twoClients where
  sorted := by decide
  fixed := by decide

/-- The first client is kept to its limit. -/
theorem rate_limit_kept_twoClients : WithinLimit clientA (new 2) twoClients := by
  refine rate_limit_kept 2 clientA twoClients history_twoClients (Or.inl (by decide)) ?_
  have hspares : ∀ s e, s.victim e.call.key = none → Spares clientA.key s e := by
    intro s e hv entry hentry
    rw [hv] at hentry
    cases hentry
  simp only [twoClients, Runs.everyStep_cons, Runs.everyStep_nil, and_true]
  exact ⟨hspares _ _ (by decide +kernel), hspares _ _ (by decide +kernel), hspares _ _ (by decide +kernel)⟩

/-- With one counter the second client's call pushes the first client's window out; with a limit of zero the first call is
allowed. -/
theorem rate_limit_exceeded :
    (History clientA twoClients ∧ ¬WithinLimit clientA (new 1) twoClients) ∧
      History { clientA with limit := 0 } [{ served := 0, lag := 0, call := { clientA with limit := 0 } }] ∧
        ¬WithinLimit { clientA with limit := 0 } (new 1)
          [{ served := 0, lag := 0, call := { clientA with limit := 0 } }] := by
  refine ⟨⟨history_twoClients, fun h => ?_⟩, ⟨by decide, by decide⟩, fun h => ?_⟩
  · have := h [] _ _ rfl rfl (by decide +kernel) (by decide +kernel)
    revert this
    decide +kernel
  · have := h [] _ _ rfl rfl (by decide +kernel) (by decide +kernel)
    revert this
    decide +kernel

end WebPipe
