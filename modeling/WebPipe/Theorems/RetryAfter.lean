import WebPipe.Theorems.RateLimiting

namespace WebPipe

open Lru

/-! ## What a refused client is told -/

namespace RateLimitStore

/-- A call does not push out the counter of a key. -/
def SparesCounter (key : String) (s : RateLimitStore) (e : ServedCall) : Prop := ∀ entry, s.victim e.call.key ≠ some (key, entry)

variable {s : RateLimitStore} {e : ServedCall}

/-- A refused call found a full counter in a live window, left it there, and was told what is left of the window. -/
theorem refused_cases (h : s.allows e = false) :
    ∃ entry, s.inner.peek e.call.key = some entry ∧ e.now - entry.windowStart < fromSecs entry.windowSecs ∧
      e.call.effectiveLimit ≤ entry.count ∧ (s.step e).inner.peek e.call.key = some entry ∧
      (s.checkAndIncrement e.now e.call).1.retryAfterSecs =
        asSecs (fromSecs entry.windowSecs - (e.now - entry.windowStart)) := by
  have hlive : s.hasLiveWindow e.call.key e.now = true := by
    by_contra hnot
    rw [allows, (checkAndIncrement_opens (eq_false_of_ne_true hnot)).1] at h
    cases h
  cases hpeek : s.inner.peek e.call.key with
  | none => simp [hasLiveWindow, hpeek] at hlive
  | some entry =>
    have hwithin : e.now - entry.windowStart < fromSecs entry.windowSecs := by
      rw [hasLiveWindow, hpeek, Option.any_some] at hlive
      exact of_decide_eq_true hlive
    obtain ⟨hallowed, hafter⟩ := checkAndIncrement_live hpeek hwithin
    have hfull : ¬entry.count < e.call.effectiveLimit := by
      rw [allows, hallowed] at h
      exact of_decide_eq_false h
    refine ⟨entry, rfl, hwithin, Nat.not_lt.mp hfull, ?_, ?_⟩
    · rw [step, hafter, if_neg hfull]
    · unfold checkAndIncrement
      rw [hpeek]
      dsimp only
      rw [if_neg (Nat.not_le.mpr hwithin), if_neg hfull]

/-- A full counter stays as it is under calls that neither push it out nor come after its window or with a higher limit. -/
theorem peek_after_refusals {key : String} {entry : RateLimitEntry} (calls : List ServedCall)
    (hown : ∀ e ∈ calls, e.call.key = key →
      e.call.effectiveLimit ≤ entry.count ∧ e.now - entry.windowStart < fromSecs entry.windowSecs)
    (hkeeps : Runs.EveryStep step (SparesCounter key) s calls) (hpeek : s.inner.peek key = some entry) :
    (Runs.after step s calls).inner.peek key = some entry := by
  induction calls generalizing s with
  | nil => exact hpeek
  | cons e rest ih =>
    refine ih (fun e' he' => hown e' (List.mem_cons_of_mem _ he')) hkeeps.tail ?_
    by_cases hkey : e.call.key = key
    · obtain ⟨hlimit, hwithin⟩ := hown e List.mem_cons_self hkey
      subst hkey
      rw [step, (checkAndIncrement_live hpeek hwithin).2, if_neg (Nat.not_lt.mpr hlimit)]
    · exact checkAndIncrement_other (Ne.symm hkey) hpeek (hkeeps.first entry)

/-- The whole seconds of a time, and one more, frame it. -/
theorem fromSecs_asSecs (d : Nat) : fromSecs (asSecs d) ≤ d ∧ d < fromSecs (asSecs d + 1) := by
  unfold fromSecs asSecs nanosPerSec
  omega

end RateLimitStore

open RateLimitStore

/-- A refused client that calls again before the seconds it was told have passed, under no higher limit, is refused again, and one
that waits a second longer is allowed, whatever is called in between, as long as its counter is not pushed out and its own calls in
between come before these seconds have passed, under no higher limit. -/
theorem retry_after_is_tight (s : RateLimitStore) (refused : ServedCall) (hrefused : s.allows refused = false)
    (hstarted : ∀ entry, s.inner.peek refused.call.key = some entry → entry.windowStart ≤ refused.now)
    (retry : Nat) (hretry : (s.checkAndIncrement refused.now refused.call).1.retryAfterSecs = retry)
    (between : List ServedCall) (hkeeps : Runs.EveryStep step (SparesCounter refused.call.key) (s.step refused) between)
    (hown : ∀ e ∈ between, e.call.key = refused.call.key →
      e.call.effectiveLimit ≤ refused.call.effectiveLimit ∧ e.now < refused.now + fromSecs retry)
    (again : ServedCall) (hkey : again.call.key = refused.call.key) :
    (again.call.effectiveLimit ≤ refused.call.effectiveLimit → again.now < refused.now + fromSecs retry →
        (Runs.after step (s.step refused) between).allows again = false) ∧
      (refused.now + fromSecs (retry + 1) ≤ again.now →
        (Runs.after step (s.step refused) between).allows again = true) := by
  obtain ⟨entry, hpeek, hwithin, hfull, hafter, htold⟩ := refused_cases hrefused
  have hstart := hstarted entry hpeek
  obtain ⟨hlower, hupper⟩ := fromSecs_asSecs (fromSecs entry.windowSecs - (refused.now - entry.windowStart))
  rw [← htold, hretry] at hlower hupper
  have hlive : ∀ e : ServedCall, e.now < refused.now + fromSecs retry →
      e.now - entry.windowStart < fromSecs entry.windowSecs := by
    intro e he
    omega
  have hstays := peek_after_refusals between
    (fun e he hk => ⟨Nat.le_trans (hown e he hk).1 hfull, hlive e (hown e he hk).2⟩) hkeeps hafter
  rw [← hkey] at hstays
  constructor
  · intro hlimit hearly
    rw [allows, (checkAndIncrement_live hstays (hlive again hearly)).1]
    exact decide_eq_false (Nat.not_lt.mpr (Nat.le_trans hlimit hfull))
  · intro hlate
    refine (checkAndIncrement_opens ?_).1
    rw [hasLiveWindow, hstays, Option.any_some, decide_eq_false_iff_not]
    omega

/-- A client that is refused in its second second and comes back after the minute. -/
theorem retry_after_is_tight_minute :
    (Runs.after step (((new 2).step { served := 0, lag := 0, call := clientA }).step
        { served := fromSecs 1, lag := 0, call := clientA })
          [{ served := fromSecs 2, lag := 0, call := { key := "b", limit := 1, windowSecs := 60, burst := none } }]).allows
      { served := fromSecs 61, lag := 0, call := clientA } = true := by
  refine (retry_after_is_tight ((new 2).step { served := 0, lag := 0, call := clientA })
    { served := fromSecs 1, lag := 0, call := clientA } (by decide +kernel) ?_ 59 (by decide +kernel) _ ?_ ?_
    { served := fromSecs 61, lag := 0, call := clientA } rfl).2 (by decide +kernel)
  · intro entry hentry
    have hopened := countsTo_opener (s := new 2) (e := { served := 0, lag := 0, call := clientA }) rfl (by decide +kernel)
    rw [CountsTo] at hopened
    rw [hopened, Option.some.injEq] at hentry
    rw [← hentry]
    exact Nat.zero_le _
  · simp only [Runs.everyStep_cons, Runs.everyStep_nil, and_true]
    intro entry hv
    have hnone : (((new 2).step { served := 0, lag := 0, call := clientA }).step
      { served := fromSecs 1, lag := 0, call := clientA }).victim "b" = none := by decide +kernel
    rw [hnone] at hv
    cases hv
  · intro e he hk
    rw [List.mem_singleton.mp he] at hk
    exact absurd hk (by decide)

end WebPipe
