import WebPipe.Lib.Runs
import WebPipe.Lemmas.CacheStep

/-!
# One refresher at a time

Any number of callers on one store: each looks keys up, puts responses, and releases the refresh slot of a key it was elected
for. `refresh_started` records when the current refresher was elected, but neither `clear_refresh` nor an overwrite asks who
makes the call: a refresher that overran its period frees the slot of the one that took over. `Undisturbed` is the condition
that this does not happen, and `single_refresher` says that then no two callers refresh a key at once.
-/

namespace WebPipe

open Lru CacheStore

/-- A caller was told to refresh a key at an instant. -/
structure Election (ι : Type*) where
  caller : ι
  key : String
  started : Nat
deriving DecidableEq

/-- The store, the clock, and the elections whose callers have neither put nor released yet. -/
structure Refreshers (ι : Type*) where
  store : CacheStore
  clock : Nat
  pending : List (Election ι)

/-- What can happen next. A lookup reads the clock before it takes the lock, `lag` nanoseconds ago. -/
inductive CallerAction (ι : Type*) where
  | tick (nanos : Nat)
  | lookup (caller : ι) (key : String) (lag : Nat)
  | put (caller : ι) (key : String) (response : CachedResponse) (ttlSecs : Option Nat)
  | release (caller : ι) (key : String)

namespace Refreshers

variable {ι : Type*}

/-- Nothing cached, nobody elected. -/
def start (cfg : CacheSettings) : Refreshers ι := { store := ofSettings cfg, clock := 0, pending := [] }

/-- An election made less than the takeover period ago, counted from the instant `started` at which the lookup read the clock, as the
store counts it: where the lookup took its lock some time later, the election is younger than its age. -/
def Live (s : Refreshers ι) (e : Election ι) : Prop := asSecs (s.clock - e.started) < s.store.refreshTakeoverSecs

instance (s : Refreshers ι) (e : Election ι) : Decidable (s.Live e) := inferInstanceAs (Decidable (_ < _))

/-- At most one caller refreshes each key. -/
def Single (s : Refreshers ι) : Prop :=
  ∀ e ∈ s.pending, ∀ e' ∈ s.pending, s.Live e → s.Live e' → e.key = e'.key → e.caller = e'.caller

/-- No other caller is refreshing the key. -/
def Alone (s : Refreshers ι) (caller : ι) (key : String) : Prop :=
  ∀ e ∈ s.pending, e.key = key → s.Live e → e.caller = caller

/-- An action frees no refresh slot under another caller: neither an accepted put nor a release of a resident key is made
while another caller refreshes the key. -/
def Undisturbed (s : Refreshers ι) : CallerAction ι → Prop
  | .put caller key response ttlSecs => s.store.Accepts response ttlSecs → s.Alone caller key
  | .release caller key => (s.store.inner.peek key).isSome → s.Alone caller key
  | _ => True

/-- The state after a lookup that read the clock at `started`: a caller told to refresh is elected. -/
def afterLookup (s : Refreshers ι) (caller : ι) (key : String) (started : Nat) : CacheLookup × CacheStore → Refreshers ι
  | (.refresh _, store) =>
    { s with store := store, pending := { caller := caller, key := key, started := started } :: s.pending }
  | (_, store) => { s with store := store }

/-! ## The invariant -/

/-- The refresh slot of every resident key that somebody refreshes is that caller's, and there is one such caller. -/
structure SlotsHeld (s : Refreshers ι) : Prop where
  slot : ∀ e ∈ s.pending, s.Live e → ∀ entry, s.store.inner.peek e.key = some entry → entry.refreshStarted = some e.started
  single : s.Single

theorem slotsHeld_start (cfg : CacheSettings) : SlotsHeld (start cfg : Refreshers ι) where
  slot := nofun
  single := nofun

/-- Fewer elections, no more of them live, and the slots of the live ones as they were: the invariant is kept. -/
theorem SlotsHeld.mono {s s' : Refreshers ι} (h : SlotsHeld s)
    (hsub : ∀ e ∈ s'.pending, s'.Live e → e ∈ s.pending ∧ s.Live e)
    (hslot : ∀ e ∈ s'.pending, s'.Live e → ∀ entry, s'.store.inner.peek e.key = some entry →
      ∃ entry', s.store.inner.peek e.key = some entry' ∧ entry.refreshStarted = entry'.refreshStarted) :
    SlotsHeld s' where
  slot := by
    intro e he hl entry hp
    obtain ⟨entry', hp', heq⟩ := hslot e he hl entry hp
    rw [heq]
    exact h.slot e (hsub e he hl).1 (hsub e he hl).2 entry' hp'
  single := by
    intro e he e' he' hl hl' hk
    exact h.single e (hsub e he hl).1 e' (hsub e' he' hl').1 (hsub e he hl).2 (hsub e' he' hl').2 hk

/-- A store in which no slot changed keeps the invariant. -/
theorem SlotsHeld.of_store {s : Refreshers ι} (h : SlotsHeld s) {store : CacheStore}
    (ht : store.refreshTakeoverSecs = s.store.refreshTakeoverSecs)
    (hp : ∀ k entry, store.inner.peek k = some entry → s.store.inner.peek k = some entry) :
    SlotsHeld { s with store := store } := by
  refine h.mono ?_ ?_
  · intro e he hl
    have hl : asSecs (s.clock - e.started) < store.refreshTakeoverSecs := hl
    rw [ht] at hl
    exact ⟨he, hl⟩
  · intro e _ _ entry hentry
    exact ⟨entry, hp e.key entry hentry, rfl⟩

/-! ## Lookups -/

/-- Nobody refreshes a key whose slot may be taken. -/
theorem SlotsHeld.not_live {s : Refreshers ι} (h : SlotsHeld s) {key : String} {entry : CacheEntry}
    (hp : s.store.inner.peek key = some entry) {now : Nat} (hnow : now ≤ s.clock)
    (ht : s.store.canTakeOver now entry = true) {e : Election ι} (he : e ∈ s.pending) (hk : e.key = key) : ¬s.Live e := by
  intro hl
  rw [CacheStore.canTakeOver, h.slot e he hl entry (hk ▸ hp), decide_eq_true_eq] at ht
  have hle : asSecs (now - e.started) ≤ asSecs (s.clock - e.started) := Nat.div_le_div_right (by omega)
  have hl : asSecs (s.clock - e.started) < s.store.refreshTakeoverSecs := hl
  omega

/-- A lookup keeps the slots of the elected. -/
theorem slotsHeld_lookup {s : Refreshers ι} (h : SlotsHeld s) (caller : ι) (key : String) {now : Nat}
    (hnow : now ≤ s.clock) : SlotsHeld (s.afterLookup caller key now (s.store.lookup now key)) := by
  rcases lookup_cases s.store now key with
    ⟨-, hl⟩ | ⟨entry, hp, ⟨-, hl⟩ | ⟨-, -, ht, hl⟩ | ⟨-, -, -, hl⟩ | ⟨-, -, hl⟩⟩
  · rw [hl]
    exact h
  · rw [hl]
    exact h.of_store rfl fun _ _ => peek_of_touch_id
  · -- elected: whoever refreshed the key before is past the takeover period
    rw [hl]
    have hdead : ∀ e ∈ s.pending, e.key = key → ¬s.Live e := fun e he hk => h.not_live hp hnow ht he hk
    refine ⟨?_, ?_⟩
    · intro e he hlive entry' hp'
      simp only [afterLookup, LruCache.peek_touch] at hp'
      rcases List.mem_cons.mp he with rfl | he
      · rw [if_pos rfl, hp] at hp'
        cases hp'
        rfl
      · rw [if_neg fun hk => hdead e he hk hlive] at hp'
        exact h.slot e he hlive entry' hp'
    · intro e he e' he' hlive hlive' hk
      rcases List.mem_cons.mp he with rfl | he
      · rcases List.mem_cons.mp he' with rfl | he'
        · rfl
        · exact absurd hlive' (hdead e' he' hk.symm)
      · rcases List.mem_cons.mp he' with rfl | he'
        · exact absurd hlive (hdead e he hk)
        · exact h.single e he e' he' hlive hlive' hk
  · rw [hl]
    exact h.of_store rfl fun _ _ => peek_of_touch_id
  · rw [hl]
    refine h.of_store rfl ?_
    intro k entry' hk
    simp only [LruCache.peek_erase] at hk
    split at hk
    · cases hk
    · exact hk

/-! ## Actions -/

section Actions

variable [DecidableEq ι]

instance (s : Refreshers ι) : Decidable s.Single := inferInstanceAs (Decidable (∀ e ∈ _, ∀ e' ∈ _, _ → _ → _ → _))

instance (s : Refreshers ι) (caller : ι) (key : String) : Decidable (s.Alone caller key) :=
  inferInstanceAs (Decidable (∀ e ∈ _, _ → _ → _))

instance (s : Refreshers ι) : (a : CallerAction ι) → Decidable (s.Undisturbed a)
  | .tick _ => inferInstanceAs (Decidable True)
  | .lookup .. => inferInstanceAs (Decidable True)
  | .put .. => inferInstanceAs (Decidable (_ → _))
  | .release .. => inferInstanceAs (Decidable (_ → _))

/-- The pending elections once a caller has put or released a key. -/
def settle (s : Refreshers ι) (caller : ι) (key : String) : List (Election ι) :=
  s.pending.filter (fun e => decide (¬(e.caller = caller ∧ e.key = key)))

/-- One action. A caller releases a key only if it was elected for it. -/
def step (s : Refreshers ι) : CallerAction ι → Refreshers ι
  | .tick nanos => { s with clock := s.clock + nanos }
  | .lookup caller key lag => s.afterLookup caller key (s.clock - lag) (s.store.lookup (s.clock - lag) key)
  | .put caller key response ttlSecs =>
    { s with store := (s.store.putResponse s.clock key response ttlSecs).2, pending := s.settle caller key }
  | .release caller key =>
    if s.pending.any (fun e => decide (e.caller = caller ∧ e.key = key)) then
      { s with store := s.store.clearRefresh key, pending := s.settle caller key }
    else s

/-- A caller that settles is no longer elected, and the others stay. -/
theorem mem_settle {s : Refreshers ι} {caller : ι} {key : String} {e : Election ι} :
    e ∈ s.settle caller key ↔ e ∈ s.pending ∧ ¬(e.caller = caller ∧ e.key = key) := by
  simp only [settle, List.mem_filter, decide_eq_true_eq]

/-- The elections that are left when a caller settles a key that nobody else refreshes are for other keys. -/
theorem key_ne_of_settle {s : Refreshers ι} {caller : ι} {key : String} (ha : s.Alone caller key) {e : Election ι}
    (he : e ∈ s.settle caller key) (hl : s.Live e) : e.key ≠ key := by
  obtain ⟨hm, hne⟩ := mem_settle.mp he
  exact fun hk => hne ⟨ha e hm hk hl, hk⟩

/-- An undisturbing put keeps the slots of the others. -/
theorem slotsHeld_put {s : Refreshers ι} (h : SlotsHeld s) {caller : ι} {key : String} {response : CachedResponse}
    {ttlSecs : Option Nat} (hu : s.Undisturbed (.put caller key response ttlSecs)) :
    SlotsHeld (s.step (.put caller key response ttlSecs)) := by
  have htake : (s.store.putResponse s.clock key response ttlSecs).2.refreshTakeoverSecs = s.store.refreshTakeoverSecs :=
    (sameLimits_call s.store s.clock (.put key response ttlSecs)).2.2.2.2.1
  have hlive : ∀ e, (s.step (.put caller key response ttlSecs)).Live e → s.Live e := by
    intro e hl
    have hl : asSecs (s.clock - e.started) <
        (s.store.putResponse s.clock key response ttlSecs).2.refreshTakeoverSecs := hl
    rw [htake] at hl
    exact hl
  refine h.mono ?_ ?_
  · intro e he hl
    exact ⟨(mem_settle.mp he).1, hlive e hl⟩
  · intro e he hl entry hp
    rcases peek_putResponse hp with ⟨hp', -⟩ | ⟨hk, -, hacc, -⟩
    · exact ⟨entry, hp', rfl⟩
    · exact absurd hk (key_ne_of_settle (hu hacc) he (hlive e hl))

/-- An undisturbing release keeps the slots of the others. -/
theorem slotsHeld_release {s : Refreshers ι} (h : SlotsHeld s) {caller : ι} {key : String}
    (hu : s.Undisturbed (.release caller key)) : SlotsHeld (s.step (.release caller key)) := by
  unfold step
  dsimp only
  split
  · refine h.mono ?_ ?_
    · intro e he hl
      exact ⟨(mem_settle.mp he).1, hl⟩
    · intro e he hl entry hp
      simp only [peek_clearRefresh] at hp
      by_cases hk : e.key = key
      · rw [if_pos hk] at hp
        obtain ⟨entry', hp', -⟩ := Option.map_eq_some_iff.mp hp
        have hsome : (s.store.inner.peek key).isSome := by rw [hp']; rfl
        exact absurd hk (key_ne_of_settle (hu hsome) he hl)
      · rw [if_neg hk] at hp
        exact ⟨entry, hp, rfl⟩
  · exact h

/-- One action keeps the invariant. -/
theorem slotsHeld_step (s : Refreshers ι) (a : CallerAction ι) (h : SlotsHeld s) (hu : s.Undisturbed a) :
    SlotsHeld (s.step a) := by
  cases a with
  | tick nanos =>
    refine h.mono ?_ fun e _ _ entry hp => ⟨entry, hp, rfl⟩
    intro e he hl
    refine ⟨he, ?_⟩
    have hl : asSecs (s.clock + nanos - e.started) < s.store.refreshTakeoverSecs := hl
    have hle : asSecs (s.clock - e.started) ≤ asSecs (s.clock + nanos - e.started) := Nat.div_le_div_right (by omega)
    exact Nat.lt_of_le_of_lt hle hl
  | lookup caller key lag => exact slotsHeld_lookup h caller key (Nat.sub_le _ _)
  | put caller key response ttlSecs => exact slotsHeld_put h hu
  | release caller key => exact slotsHeld_release h hu

/-- In every run in which no refresher is disturbed, no two callers ever refresh one key at once. -/
theorem single_refresher (cfg : CacheSettings) (actions : List (CallerAction ι))
    (hu : Runs.EveryStep step Undisturbed (start cfg) actions) : Runs.Always step Single (start cfg) actions := by
  have hheld := Runs.always_of_everyStep slotsHeld_step (slotsHeld_start cfg) actions hu
  intro pre post e
  exact (hheld pre post e).single

end Actions

/-! ## A refresher that overran its period -/

section Overrun

/-- A response of the runs below. -/
def page : CachedResponse := { body := .string "page", contentType := "text/html", statusCode := some 200 }

/-- A page cached for one second, with a grace window of a minute and a takeover period of ten seconds. -/
def pageSettings : CacheSettings := { CacheSettings.ofNew 16 60 (fromSecs 100000) with
  swrGraceSecs := 60, refreshTakeoverSecs := 10 }

/-- Callers 1 and 2 refresh one after the other, the second after a takeover, and both put. -/
def orderlyRun : List (CallerAction Nat) :=
  [.put 0 "k" page (some 1), .tick (fromSecs 2), .lookup 1 "k" 0, .lookup 2 "k" 0, .tick (fromSecs 10), .lookup 2 "k" 0,
    .tick (fromSecs 1), .put 2 "k" page (some 1), .tick (fromSecs 1), .put 1 "k" page (some 1)]

/-- So one of them is elected at a time. -/
theorem single_refresher_orderlyRun : Runs.Always step Single (start pageSettings) orderlyRun :=
  single_refresher pageSettings orderlyRun (by
    simp only [orderlyRun, Runs.everyStep_cons, Runs.everyStep_nil]
    decide)

/-- Caller 1 overruns, caller 2 takes over, caller 1 releases the slot, and caller 3 is elected beside caller 2. -/
def overrunRun : List (CallerAction Nat) :=
  [.put 0 "k" page (some 1), .tick (fromSecs 2), .lookup 1 "k" 0, .tick (fromSecs 10), .lookup 2 "k" 0,
    .tick (fromSecs 1), .release 1 "k", .lookup 3 "k" 0]

/-- Two callers refresh one key at once. -/
theorem overrun_not_single : ¬Runs.Always step Single (start pageSettings) overrunRun := by
  intro h
  have hrun := h overrunRun [] (List.append_nil _).symm
  revert hrun
  decide

end Overrun

end Refreshers
end WebPipe
