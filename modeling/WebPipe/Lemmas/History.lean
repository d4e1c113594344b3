import WebPipe.Lemmas.CacheSize
import WebPipe.Lemmas.Trace

/-!
# The calls of a log

The calls on the store that a log holds, at any depth, are the calls that lead from the store before the run to the store after it.
From a list of calls alone follows which response a resident entry has, and that an entry whose refresh slot was given back stays
free until the next election.
-/

namespace WebPipe

open Lru

/-- A call on the store, when it was made, and its answer. -/
structure CacheRecord where
  now : Nat
  call : CacheCall
  answer : CacheAnswer

/-- The call elected a refresher of the key. -/
def CacheRecord.Elects (key : String) (record : CacheRecord) : Prop :=
  record.call = .lookup key ∧ ∃ response, record.answer = .looked (.refresh response)

/-- The call gave the slot of the key back: a release, a stored response, or a put for which everything was evicted. -/
def CacheRecord.Frees (key : String) (record : CacheRecord) : Prop :=
  record.call = .clearRefresh key ∨ ∃ response ttlSecs, record.call = .put key response ttlSecs ∧
    (record.answer = .put .stored ∨ record.answer = .put .totalTooLarge)

mutual

/-- The calls on the store that an event holds. -/
def Event.calls : Event → List CacheRecord
  | .cache _ now call answer => [{ now := now, call := call, answer := answer }]
  | .run _ _ _ _ inner _ => callsOf inner
  | .task _ inner => callsOf inner
  | _ => []

/-- The calls on the store that a log holds, in order. -/
def callsOf : List Event → List CacheRecord
  | [] => []
  | e :: l => e.calls ++ callsOf l

end

/-- The calls of a log in order. -/
theorem callsOf_append (l₁ l₂ : List Event) : callsOf (l₁ ++ l₂) = callsOf l₁ ++ callsOf l₂ := by
  induction l₁ with
  | nil => rfl
  | cons e l₁ ih => rw [List.cons_append, callsOf, callsOf, ih, List.append_assoc]

namespace CacheStore

/-- A store that answers the calls as recorded, and what it becomes. -/
inductive Serves : CacheStore → List CacheRecord → CacheStore → Prop
  | nil (c : CacheStore) : Serves c [] c
  | cons {c c' : CacheStore} {now : Nat} {call : CacheCall} {records : List CacheRecord}
      (h : Serves (c.serve now call).2 records c') :
      Serves c ({ now := now, call := call, answer := (c.serve now call).1 } :: records) c'

/-- Two histories in a row make one. -/
theorem Serves.trans {c c₁ c₂ : CacheStore} {a b : List CacheRecord} (h₁ : Serves c a c₁) (h₂ : Serves c₁ b c₂) :
    Serves c (a ++ b) c₂ := by
  induction h₁ with
  | nil => exact h₂
  | cons _ ih => exact .cons (ih h₂)

/-- A history is split between two calls. -/
theorem Serves.split {c c₂ : CacheStore} {a b : List CacheRecord} (h : Serves c (a ++ b) c₂) :
    ∃ c₁, Serves c a c₁ ∧ Serves c₁ b c₂ := by
  induction a generalizing c with
  | nil => exact ⟨c, .nil c, h⟩
  | cons r a ih =>
    cases h with
    | cons h =>
      obtain ⟨c₁, h₁, h₂⟩ := ih h
      exact ⟨c₁, .cons h₁, h₂⟩

/-- Serving never changes the limits. -/
theorem Serves.sameLimits {c c' : CacheStore} {records : List CacheRecord} (h : Serves c records c') : c.SameLimits c' := by
  induction h with
  | nil c => exact SameLimits.refl c
  | cons _ ih => exact ((serve_snd _ _ _ ▸ sameLimits_call _ _ _ : SameLimits _ _)).trans ih

/-! ## The response of a resident entry -/

/-- The response that a call stored under a key. -/
def storedUnder (key : String) (record : CacheRecord) : Option CachedResponse :=
  match record.call, record.answer with
  | .put k response _, .put .stored => if k = key then some response else none
  | _, _ => none

/-- The response that was last stored under a key. -/
def lastStored (records : List CacheRecord) (key : String) : Option CachedResponse :=
  records.foldl (fun last record => (storedUnder key record).or last) none

/-- What was last stored is what the last call stored, or what was there. -/
theorem lastStored_concat (records : List CacheRecord) (record : CacheRecord) (key : String) :
    lastStored (records ++ [record]) key = (storedUnder key record).or (lastStored records key) := by
  unfold lastStored
  rw [List.foldl_append]
  rfl

/-- Every resident entry has the response that was last stored under its key. -/
def Remembers (records : List CacheRecord) (c : CacheStore) : Prop :=
  ∀ key entry, c.inner.peek key = some entry → lastStored records key = some entry.response

/-- A call keeps the store in line with what was last stored. -/
theorem remembers_serve {records : List CacheRecord} {c : CacheStore} (h : Remembers records c) (now : Nat)
    (call : CacheCall) :
    Remembers (records ++ [{ now := now, call := call, answer := (c.serve now call).1 }]) (c.serve now call).2 := by
  intro key entry hpeek
  rw [lastStored_concat]
  cases call with
  | put k response ttlSecs =>
    change (c.putResponse now k response ttlSecs).2.inner.peek key = some entry at hpeek
    have hanswer : (c.serve now (.put k response ttlSecs)).1 = .put (c.putResponse now k response ttlSecs).1 := rfl
    rw [hanswer]
    rcases peek_putResponse hpeek with ⟨hold, hne⟩ | ⟨rfl, hstored, -, d, -, rfl⟩
    · have hnone : storedUnder key
          { now := now, call := .put k response ttlSecs, answer := .put (c.putResponse now k response ttlSecs).1 } = none := by
        by_cases hk : k = key
        · have := hne hk.symm
          cases ho : (c.putResponse now k response ttlSecs).1 with
          | stored => exact absurd ho this
          | _ => rfl
        · cases (c.putResponse now k response ttlSecs).1 <;> simp [storedUnder, hk]
      rw [hnone, Option.none_or]
      exact h key entry hold
    · rw [hstored]
      simp [storedUnder, newEntry]
  | lookup k =>
    obtain ⟨e, slot, hold, rfl, -⟩ := peek_lookup hpeek
    exact h key e hold
  | clearRefresh k =>
    change (c.clearRefresh k).inner.peek key = some entry at hpeek
    rw [peek_clearRefresh] at hpeek
    by_cases hk : key = k
    · rw [if_pos hk] at hpeek
      obtain ⟨e, hold, rfl⟩ := Option.map_eq_some_iff.mp hpeek
      exact h key e (hk ▸ hold)
    · rw [if_neg hk] at hpeek
      exact h key entry hpeek

/-- So does a history: induction on its calls. -/
theorem Serves.remembers {records records' : List CacheRecord} {c c' : CacheStore} (hc : Remembers records c)
    (h : Serves c records' c') : Remembers (records ++ records') c' := by
  induction h generalizing records with
  | nil =>
    rw [List.append_nil]
    exact hc
  | cons _ ih =>
    rw [List.append_cons]
    exact ih (remembers_serve hc _ _)

/-- From an empty store on, a resident entry has the response that was last stored under its key. -/
theorem Serves.remembers_ofSettings {cfg : CacheSettings} {records : List CacheRecord} {c : CacheStore}
    (h : Serves (ofSettings cfg) records c) : Remembers records c := by
  have hempty : Remembers [] (ofSettings cfg) := by
    intro key entry hpeek
    rw [peek_ofSettings] at hpeek
    cases hpeek
  exact h.remembers hempty

/-! ## The refresh slot -/

/-- The entry of the key is gone, or nobody is refreshing it. -/
def Unclaimed (key : String) (c : CacheStore) : Prop :=
  ∀ entry, c.inner.peek key = some entry → entry.refreshStarted = none

/-- A call that elects nobody for the key leaves its slot free. -/
theorem unclaimed_serve {key : String} {c : CacheStore} (h : Unclaimed key c) {now : Nat} {call : CacheCall}
    (hno : ¬ CacheRecord.Elects key { now := now, call := call, answer := (c.serve now call).1 }) :
    Unclaimed key (c.serve now call).2 := by
  intro entry hpeek
  cases call with
  | put k response ttlSecs =>
    rcases peek_putResponse hpeek with ⟨hold, -⟩ | ⟨-, -, -, d, -, rfl⟩
    · exact h entry hold
    · rfl
  | lookup k =>
    by_cases hk : key = k
    · subst hk
      change (c.lookup now key).2.inner.peek key = some entry at hpeek
      rcases lookup_cases c now key with
        ⟨hp, hl⟩ | ⟨e, hp, ⟨-, hl⟩ | ⟨-, -, -, hl⟩ | ⟨-, -, -, hl⟩ | ⟨-, -, hl⟩⟩
      · rw [hl] at hpeek
        exact h entry hpeek
      · rw [hl] at hpeek
        exact h entry (peek_of_touch_id hpeek)
      · exact absurd ⟨rfl, e.response, congrArg (fun p : CacheLookup × CacheStore => CacheAnswer.looked p.1) hl⟩ hno
      · rw [hl] at hpeek
        exact h entry (peek_of_touch_id hpeek)
      · rw [hl] at hpeek
        dsimp only at hpeek
        rw [LruCache.peek_erase, if_pos rfl] at hpeek
        cases hpeek
    · obtain ⟨e, slot, hold, -, hsame⟩ := peek_lookup hpeek
      rw [hsame hk]
      exact h e hold
  | clearRefresh k =>
    change (c.clearRefresh k).inner.peek key = some entry at hpeek
    rw [peek_clearRefresh] at hpeek
    by_cases hk : key = k
    · rw [if_pos hk] at hpeek
      obtain ⟨e, -, rfl⟩ := Option.map_eq_some_iff.mp hpeek
      rfl
    · rw [if_neg hk] at hpeek
      exact h entry hpeek

/-- A put that is refused for the total size has evicted everything. -/
theorem putResponse_totalTooLarge {c : CacheStore} {now : Nat} {key : String} {response : CachedResponse}
    {ttlSecs : Option Nat} (h : (c.putResponse now key response ttlSecs).1 = .totalTooLarge) :
    (c.putResponse now key response ttlSecs).2.inner.entries = [] := by
  rcases putResponse_cases c now key response ttlSecs with
    ⟨ha, -, -⟩ | ⟨-, room, hroom, ⟨hlt, hp⟩ | ⟨-, -, hp⟩ | ⟨-, d, -, hp⟩⟩
  · exfalso
    unfold putResponse putResponseIn at h
    by_cases ht : ttlSecs.getD c.defaultTtlSecs = 0
    · rw [if_pos ht] at h
      cases h
    · have hsize : c.maxEntrySize < estimateSize response.body := by
        by_contra hle
        exact ha ⟨ht, Nat.le_of_not_lt hle⟩
      rw [if_neg ht, if_pos hsize] at h
      cases h
  · obtain ⟨P, -, -, hempty | hfits⟩ := makeRoom_spec c key (estimateSize response.body)
    · rw [hp, ← hroom]
      exact hempty
    · rw [hroom] at hfits
      omega
  · rw [hp] at h
    cases h
  · rw [hp] at h
    cases h

/-- An admitted put that does not panic gives the slot back. -/
theorem frees_of_admits {c : CacheStore} {now : Nat} {key : String} {response : CachedResponse} {ttlSecs : Option Nat}
    (ha : c.Admits response ttlSecs) (hok : (c.putResponse now key response ttlSecs).1 ≠ .panicked) :
    CacheRecord.Frees key { now := now, call := .put key response ttlSecs,
                            answer := (c.serve now (.put key response ttlSecs)).1 } := by
  refine Or.inr ⟨response, ttlSecs, rfl, ?_⟩
  rcases putResponse_cases c now key response ttlSecs with
    ⟨hna, -, -⟩ | ⟨-, room, -, ⟨-, hp⟩ | ⟨-, -, hp⟩ | ⟨-, d, -, hp⟩⟩
  · exact absurd ha hna
  · exact Or.inr (congrArg (fun p : PutOutcome × CacheStore => CacheAnswer.put p.1) hp)
  · rw [hp] at hok
    exact absurd rfl hok
  · exact Or.inl (congrArg (fun p : PutOutcome × CacheStore => CacheAnswer.put p.1) hp)

/-- A call that frees a key leaves it unclaimed. -/
theorem unclaimed_of_frees {key : String} {c : CacheStore} {now : Nat} {call : CacheCall}
    (h : CacheRecord.Frees key { now := now, call := call, answer := (c.serve now call).1 }) :
    Unclaimed key (c.serve now call).2 := by
  intro entry hpeek
  rcases h with hclear | ⟨response, ttlSecs, hput, hanswer⟩
  · cases hclear
    change (c.clearRefresh key).inner.peek key = some entry at hpeek
    rw [peek_clearRefresh, if_pos rfl] at hpeek
    obtain ⟨e, -, rfl⟩ := Option.map_eq_some_iff.mp hpeek
    rfl
  · cases hput
    rcases hanswer with hstored | hlarge
    · have hstored : (c.putResponse now key response ttlSecs).1 = .stored := CacheAnswer.put.inj hstored
      rcases peek_putResponse hpeek with ⟨-, hne⟩ | ⟨-, -, -, d, -, rfl⟩
      · exact absurd hstored (hne rfl)
      · rfl
    · have hempty := putResponse_totalTooLarge (CacheAnswer.put.inj hlarge)
      rw [LruCache.peek_eq_some_iff] at hpeek
      change (key, entry) ∈ (c.putResponse now key response ttlSecs).2.inner.entries at hpeek
      rw [hempty] at hpeek
      cases hpeek

/-- A key stays unclaimed as long as no call is elected for it. -/
theorem Serves.unclaimed {key : String} {c c' : CacheStore} {records : List CacheRecord} (h : Serves c records c')
    (hc : Unclaimed key c) (hno : ∀ record ∈ records, ¬ record.Elects key) : Unclaimed key c' := by
  induction h with
  | nil => exact hc
  | cons _ ih =>
    exact ih (unclaimed_serve hc (hno _ List.mem_cons_self)) fun record hr => hno record (List.mem_cons_of_mem _ hr)

/-- Once a slot was given back and nobody was elected since, it is free. -/
theorem Serves.unclaimed_of_frees {key : String} {c c' : CacheStore} {a b : List CacheRecord} {record : CacheRecord}
    (h : Serves c (a ++ record :: b) c') (hfrees : record.Frees key) (hno : ∀ r ∈ b, ¬ r.Elects key) :
    Unclaimed key c' := by
  obtain ⟨c₁, -, h₁⟩ := h.split
  cases h₁ with
  | cons h₂ => exact h₂.unclaimed (CacheStore.unclaimed_of_frees hfrees) hno

end CacheStore

/-! ## The calls of a run -/

variable {σ : Type} {env : ExecutionEnv σ}

/-- The calls that the log holds lead from the store before to the store after. -/
def ServesCalls (w : World σ) (l : List Event) (w' : World σ) : Prop := w.cache.Serves (callsOf l) w'.cache

theorem passes_servesCalls : Passes (ServesCalls : World σ → List Event → World σ → Prop) where
  quiet h := by
    unfold ServesCalls
    rw [h]
    exact .nil _
  trans h₁ h₂ := by
    unfold ServesCalls at *
    rw [callsOf_append]
    exact h₁.trans h₂

theorem coversCache_servesCalls : CoversCache (ServesCalls : World σ → List Event → World σ → Prop) :=
  fun _ _ _ _ => .cons (.nil _)

/-- A run that serves its calls, for a run that serves its own. -/
theorem coversRun_servesCalls {run : RunFn σ}
    (h : ∀ p v hd w r w' l, run p v hd w = some (r, w', l) → ServesCalls w l w') : CoversRun env run ServesCalls := by
  have hruns : CoversRuns run (ServesCalls : World σ → List Event → World σ → Prop) := by
    intro entry p v inner result w w' hrun
    have hin := h _ _ _ _ _ _ _ hrun
    unfold ServesCalls at *
    rw [callsOf, Event.calls, callsOf, List.append_nil]
    exact hin
  have htasks : CoversTasks env run (ServesCalls : World σ → List Event → World σ → Prop) := by
    intro name task inner r w w' hbody
    have hin := follows_taskBody passes_servesCalls hruns (fun _ _ _ => .nil _) coversCache_servesCalls _ _ _ _ _ hbody
    unfold ServesCalls at *
    rw [callsOf, Event.calls, callsOf, List.append_nil]
    exact hin
  exact
    { toPasses := passes_servesCalls
      runs := hruns
      tasks := htasks
      invoked := fun _ _ _ => .nil _
      spawned := fun _ _ _ => .nil _
      joined := fun _ _ _ => .nil _
      cache := coversCache_servesCalls
      settled := fun _ _ _ _ _ _ _ _ => .nil _
      skipped := fun _ _ _ => .nil _
      entered := fun _ _ _ => .nil _ }

/-- Every run of the executor serves the calls in its log. -/
theorem serves_execute {n : Nat} {pipeline : Pipeline} {input : Value} {handled : Option String} {w w' : World σ}
    {r : Except Failure PipelineOutput} {l : List Event}
    (h : executeWithErrorShortCircuit env n pipeline input handled w = some (r, w', l)) : ServesCalls w l w' := by
  induction n generalizing pipeline input handled w r w' l with
  | zero => cases h
  | succ n ih => exact follows_runPipeline (coversRun_servesCalls fun _ _ _ _ _ _ _ hrun => ih hrun).loop _ _ _ _ _ _ _ h

end WebPipe
