import WebPipe.Lemmas.Saves
import WebPipe.Lemmas.History

/-!
# The cache calls of a whole run

The loop over the steps makes lookups only, and keeps a save for each of them that was no hit; what it keeps is put or released in
one go, when the run returns. A run that ends in an error has made lookups only.
-/

namespace WebPipe

variable {σ : Type} {env : ExecutionEnv σ} {run : RunFn σ}

/-! ## Lookups and what they leave -/

/-- Lookups, and the saves kept for those of them that were no hit. -/
inductive Keeps : List (CacheCall × CacheAnswer) → List PendingCacheSave → Prop
  | nil : Keeps [] []
  | look {calls : List (CacheCall × CacheAnswer)} {kept : List PendingCacheSave} (key : String) (ttl : Nat)
      (lookup : CacheLookup) (h : Keeps calls kept) :
      Keeps ((.lookup key, .looked lookup) :: calls) (savesAfter key ttl lookup ++ kept)

/-- Calls keep saves one after the other. -/
theorem Keeps.append {a b : List (CacheCall × CacheAnswer)} {kept kept' : List PendingCacheSave} (h : Keeps a kept)
    (h' : Keeps b kept') : Keeps (a ++ b) (kept ++ kept') := by
  induction h with
  | nil => exact h'
  | look key ttl lookup _ ih =>
    rw [List.cons_append, List.append_assoc]
    exact .look key ttl lookup ih

/-- A lookup keeps the save that its answer asks for. -/
theorem Keeps.single (key : String) (ttl : Nat) (lookup : CacheLookup) :
    Keeps [(.lookup key, .looked lookup)] (savesAfter key ttl lookup) := by
  have h := Keeps.look key ttl lookup .nil
  rw [List.append_nil] at h
  exact h

/-- Nothing but lookups was called. -/
theorem Keeps.isLookup {calls : List (CacheCall × CacheAnswer)} {kept : List PendingCacheSave} (h : Keeps calls kept)
    {c : CacheCall × CacheAnswer} (hc : c ∈ calls) : ∃ key lookup, c = (.lookup key, .looked lookup) := by
  induction h with
  | nil => cases hc
  | look key ttl lookup _ ih =>
    rcases List.mem_cons.mp hc with rfl | hc
    · exact ⟨key, lookup, rfl⟩
    · exact ih hc

/-- Each lookup left its save. -/
theorem Keeps.save_mem {calls : List (CacheCall × CacheAnswer)} {kept : List PendingCacheSave} (h : Keeps calls kept)
    {key : String} {lookup : CacheLookup} (hc : (.lookup key, .looked lookup) ∈ calls) :
    ∃ ttl, ∀ save ∈ savesAfter key ttl lookup, save ∈ kept := by
  induction h with
  | nil => cases hc
  | look key' ttl lookup' _ ih =>
    rcases List.mem_cons.mp hc with he | hc
    · cases he
      exact ⟨ttl, fun save hs => List.mem_append_left _ hs⟩
    · obtain ⟨ttl', hkept⟩ := ih hc
      exact ⟨ttl', fun save hs => List.mem_append_right _ (hkept save hs)⟩

/-- What a step that is not the end of its pipeline keeps, or one that is. -/
theorem StepCalls.keeps {ctx : StepContext} {outcome : StepOutcome} {ctx' : StepContext}
    {calls : List (CacheCall × CacheAnswer)} (h : StepCalls ctx (.ok (outcome, ctx')) calls) :
    ctx'.pipeCtx.cacheHit = .none ∧
      ∃ kept, ctx'.pipeCtx.pendingCacheSaves = ctx.pipeCtx.pendingCacheSaves ++ kept ∧ Keeps calls kept := by
  cases h with
  | none hs hh => exact ⟨hh, [], by rw [hs, List.append_nil], .nil⟩
  | missed _ hs hh => exact ⟨hh, _, hs, .single _ _ _⟩
  | @hit _ key lookup response status hl hs hh =>
    refine ⟨hh, [], by rw [hs, List.append_nil], ?_⟩
    have hkeeps := Keeps.single key 0 lookup
    rw [savesAfter_of_hit hl] at hkeeps
    exact hkeeps

/-- A step that failed made no call. -/
theorem StepCalls.nil_of_error {ctx : StepContext} {f : Failure} {calls : List (CacheCall × CacheAnswer)}
    (h : StepCalls ctx (.error f) calls) : calls = [] := by
  cases h
  rfl

/-! ## The loop -/

/-- How the loop over the steps stands with the cache when it ends: it failed, in a step or in the saves of a step that returned;
it is through with the steps; or a step returned, and the saves kept so far were performed with what it returned. -/
inductive LoopCalls (saves : List PendingCacheSave) : Except Failure (LoopState ⊕ PipelineOutput) → World σ → List Event → Prop
  | failed {f : Failure} {w' : World σ} {l : List Event} {kept : List PendingCacheSave} (h : Keeps (ownCalls l) kept) :
      LoopCalls saves (.error f) w' l
  | panicked {output : PipelineOutput} {w₁ w' : World σ} {l₁ l₂ : List Event} {kept : List PendingCacheSave}
      (h : Keeps (ownCalls l₁) kept) (hsaves : runPendingCacheSaves (saves ++ kept) output w₁ = some (.error .panic, w', l₂)) :
      LoopCalls saves (.error .panic) w' (l₁ ++ l₂)
  | through {s : LoopState} {w' : World σ} {l : List Event} {kept : List PendingCacheSave} (h : Keeps (ownCalls l) kept)
      (hkept : s.pipeCtx.pendingCacheSaves = saves ++ kept) (hhit : s.pipeCtx.cacheHit = none) :
      LoopCalls saves (.ok (.inl s)) w' l
  | returned {output : PipelineOutput} {w₁ w' : World σ} {l₁ l₂ : List Event} {kept : List PendingCacheSave}
      (h : Keeps (ownCalls l₁) kept) (hsaves : runPendingCacheSaves (saves ++ kept) output w₁ = some (.ok (), w', l₂)) :
      LoopCalls saves (.ok (.inr output)) w' (l₁ ++ l₂)

/-- One turn of the loop adds the calls of its step. -/
theorem iterate_calls {s : LoopState} (hc : s.pipeCtx.cacheHit = none) {steps : List PipelineStep} {idx : Nat}
    {step : PipelineStep} {w w' : World σ} {r : Except Failure (LoopState ⊕ PipelineOutput)} {l : List Event}
    (h : iterate env run steps idx step s w = some (r, w', l)) : LoopCalls s.pipeCtx.pendingCacheSaves r w' l := by
  cases iterate_turn h with
  | skip => exact .through .nil (List.append_nil _).symm hc
  | fail _ hx =>
    have hcalls := (executeStep_calls hc hx).nil_of_error
    have hkeeps : Keeps [] [] := .nil
    rw [← hcalls, ← ownCalls_cons_none (e := .entered step s.pipeCtx.state) rfl] at hkeeps
    exact .failed hkeeps
  | next _ hx =>
    obtain ⟨hhit, kept, hkept, hkeeps⟩ := (executeStep_calls hc hx).keeps
    refine .through ?_ hkept hhit
    rw [ownCalls_cons_none rfl]
    exact hkeeps
  | ret _ hx hsaves =>
    obtain ⟨-, kept, hkept, hkeeps⟩ := (executeStep_calls hc hx).keeps
    rw [hkept] at hsaves
    rw [← List.cons_append]
    refine .returned ?_ hsaves
    rw [ownCalls_cons_none rfl]
    exact hkeeps
  | retFail _ hx hsaves =>
    obtain ⟨-, kept, hkept, hkeeps⟩ := (executeStep_calls hc hx).keeps
    obtain rfl := saves_error hsaves
    rw [hkept] at hsaves
    rw [← List.cons_append]
    refine .panicked ?_ hsaves
    rw [ownCalls_cons_none rfl]
    exact hkeeps

/-- The loop adds them up: induction on the steps that are left. -/
theorem loopSteps_calls {s : LoopState} (hc : s.pipeCtx.cacheHit = none) {steps : List PipelineStep} {idx : Nat}
    {rest : List PipelineStep} {w w' : World σ} {r : Except Failure (LoopState ⊕ PipelineOutput)} {l : List Event}
    (h : loopSteps env run steps idx rest s w = some (r, w', l)) : LoopCalls s.pipeCtx.pendingCacheSaves r w' l := by
  induction rest generalizing idx s w l with
  | nil =>
    cases h
    exact .through .nil (List.append_nil _).symm hc
  | cons step rest ih =>
    rw [loopSteps_cons] at h
    obtain ⟨f, hturn, rfl⟩ | ⟨turn, w₁, l₁, l₂, hturn, hrest, rfl⟩ := Prog.bind_eq_some h
    · have hcalls := iterate_calls hc hturn
      cases hcalls with
      | failed hkeeps => exact .failed hkeeps
      | panicked hkeeps hsaves => exact .panicked hkeeps hsaves
    · have hcalls := iterate_calls hc hturn
      cases hcalls with
      | @through s₁ _ _ kept hkeeps hkept hhit =>
        have hlater := ih hhit hrest
        rw [hkept] at hlater
        cases hlater with
        | failed hkeeps' =>
          have hboth := hkeeps.append hkeeps'
          rw [← ownCalls_append] at hboth
          exact .failed hboth
        | panicked hkeeps' hsaves =>
          rw [List.append_assoc] at hsaves
          rw [← List.append_assoc]
          refine .panicked ?_ hsaves
          rw [ownCalls_append]
          exact hkeeps.append hkeeps'
        | through hkeeps' hkept' hhit' =>
          rw [List.append_assoc] at hkept'
          refine .through ?_ hkept' hhit'
          rw [ownCalls_append]
          exact hkeeps.append hkeeps'
        | returned hkeeps' hsaves =>
          rw [List.append_assoc] at hsaves
          rw [← List.append_assoc]
          refine .returned ?_ hsaves
          rw [ownCalls_append]
          exact hkeeps.append hkeeps'
      | returned hkeeps hsaves =>
        cases hrest
        rw [List.append_nil]
        exact .returned hkeeps hsaves

/-! ## The saves -/

theorem mem_ownCalls {l : List Event} {c : CacheCall × CacheAnswer} :
    c ∈ ownCalls l ↔ ∃ now, Event.cache true now c.1 c.2 ∈ l := by
  constructor
  · intro h
    obtain ⟨e, he, hcall⟩ := List.mem_filterMap.mp h
    unfold Event.ownCall at hcall
    split at hcall
    · cases hcall
      exact ⟨_, he⟩
    · cases hcall
  · rintro ⟨now, h⟩
    exact List.mem_filterMap.mpr ⟨_, h, rfl⟩

theorem ownCalls_of_mem {l : List Event} {t : Nat} {call : CacheCall} {answer : CacheAnswer}
    (h : .cache true t call answer ∈ l) : (call, answer) ∈ ownCalls l :=
  mem_ownCalls.mpr ⟨t, h⟩

/-- What others do before a call of the run is in the log, and is no call of the run. -/
theorem interfere_total (w : World σ) :
    ∃ w₁ l, Exec.interfere w = some (.ok (), w₁, l) ∧ ownCalls l = [] ∧ ∀ e ∈ l, e.IsCache := by
  have h : Exec.interfere w = some (.ok (), w.interfere.2, w.interfere.1) := rfl
  exact ⟨_, _, h, ownCalls_interfere h, (otherAll_spec _ _).2⟩

/-- A log that ends with a call of the run. -/
theorem ownCalls_concat {l : List Event} (hown : ownCalls l = []) (hquiet : ∀ e ∈ l, e.IsCache) (now : Nat) (call : CacheCall)
    (answer : CacheAnswer) :
    ownCalls (l ++ [.cache true now call answer]) = [(call, answer)] ∧
      ∀ e ∈ l ++ [.cache true now call answer], e.IsCache := by
  refine ⟨?_, ?_⟩
  · rw [ownCalls_append, hown]
    rfl
  · intro e he
    rcases List.mem_append.mp he with he | he
    · exact hquiet e he
    · cases List.mem_singleton.mp he
      trivial

/-- The response that is cached of an output. -/
def PipelineOutput.response (output : PipelineOutput) : CachedResponse :=
  { body := output.state, contentType := output.contentType, statusCode := output.statusCode }

/-- A release is one call. -/
theorem clearKey_calls (key : String) (w : World σ) :
    ∃ w' l, Exec.clearKey key w = some (.ok (), w', l) ∧ ownCalls l = [(.clearRefresh key, .cleared)] ∧ ∀ e ∈ l, e.IsCache := by
  obtain ⟨w₁, l₁, hstart, hown, hquiet⟩ := interfere_total w
  refine ⟨{ w₁ with cache := w₁.cache.clearRefresh key }, l₁ ++ [.cache true w₁.clock (.clearRefresh key) .cleared], ?_,
    ownCalls_concat hown hquiet _ _ _⟩
  unfold Exec.clearKey
  rw [Prog.bind_of_ok hstart, Prog.gets_bind, Prog.bind_of_ok (serve_apply _ _ _)]
  rfl

/-- A put is answered, and it fails where the answer is a panic. -/
theorem putKey_calls (key : String) (response : CachedResponse) (ttlSecs : Option Nat) (w : World σ) :
    ∃ r w' l outcome, Exec.putKey key response ttlSecs w = some (r, w', l) ∧
      (ownCalls l = [(.put key response ttlSecs, .put outcome)] ∧ ∀ e ∈ l, e.IsCache) ∧
      ((r = .ok () ∧ outcome ≠ .panicked) ∨ (r = .error .panic ∧ outcome = .panicked)) := by
  obtain ⟨w₁, l₁, hstart, hown, hquiet⟩ := interfere_total w
  obtain ⟨outcome, cache, hserve⟩ : ∃ outcome cache,
      w₁.cache.serve w₁.clock (.put key response ttlSecs) = (.put outcome, cache) := ⟨_, _, rfl⟩
  have hput : Exec.putKey key response ttlSecs w = some (if outcome = .panicked then .error .panic else .ok (),
      { w₁ with cache := cache }, l₁ ++ [.cache true w₁.clock (.put key response ttlSecs) (.put outcome)]) := by
    unfold Exec.putKey
    rw [Prog.bind_of_ok hstart, Prog.gets_bind, Prog.bind_of_ok (serve_apply _ _ _), hserve]
    cases outcome <;> rfl
  refine ⟨_, _, _, outcome, hput, ownCalls_concat hown hquiet _ _ _, ?_⟩
  by_cases hp : outcome = .panicked
  · exact Or.inr ⟨if_pos hp, hp⟩
  · exact Or.inl ⟨if_neg hp, hp⟩

/-- What the saves of a run with this output call, and how they end. -/
structure SavesCalls (saves : List PendingCacheSave) (output : PipelineOutput) (r : Except Failure Unit) (l : List Event) : Prop where
  /-- Releases for an output that is not cached, and puts of any other. -/
  only : ∀ c ∈ ownCalls l, (uncacheable output = true ∧ ∃ save ∈ saves, c = (.clearRefresh save.key, .cleared)) ∨
    (uncacheable output = false ∧ ∃ save ∈ saves, ∃ outcome,
      c = (.put save.key output.response (some save.ttl), .put outcome))
  quiet : ∀ e ∈ l, e.IsCache
  /-- They end, and they fail only where the clock panics. -/
  ends : (r = .ok () ∧ ∀ c ∈ ownCalls l, c.2 ≠ .put .panicked) ∨ (r = .error .panic ∧ ∃ c ∈ ownCalls l, c.2 = .put .panicked)
  /-- When they succeed, each save was put, or released when it held a slot. -/
  all : r = .ok () → ∀ save ∈ saves, (save.refreshing = true → (.clearRefresh save.key, .cleared) ∈ ownCalls l) ∨
    ∃ outcome, (.put save.key output.response (some save.ttl), .put outcome) ∈ ownCalls l

/-- The slots of the refreshing saves are released, and no others. -/
theorem releaseSlots_calls (saves : List PendingCacheSave) (w : World σ) :
    ∃ w' l, releaseSlots saves w = some (.ok (), w', l) ∧
      (∀ c ∈ ownCalls l, ∃ save ∈ saves, c = (.clearRefresh save.key, .cleared)) ∧ (∀ e ∈ l, e.IsCache) ∧
      ∀ save ∈ saves, save.refreshing = true → (.clearRefresh save.key, .cleared) ∈ ownCalls l := by
  induction saves generalizing w with
  | nil => exact ⟨w, [], rfl, nofun, nofun, nofun⟩
  | cons save saves ih =>
    have hfirst : ∃ w₁ l₁, releaseSlot save w = some (.ok (), w₁, l₁) ∧
        (∀ c ∈ ownCalls l₁, c = (.clearRefresh save.key, .cleared)) ∧ (∀ e ∈ l₁, e.IsCache) ∧
        (save.refreshing = true → (.clearRefresh save.key, .cleared) ∈ ownCalls l₁) := by
      unfold releaseSlot
      split
      · obtain ⟨w₁, l₁, h₁, hown, hquiet⟩ := clearKey_calls save.key w
        refine ⟨w₁, l₁, h₁, ?_, hquiet, ?_⟩
        · rw [hown]
          exact fun c hc => List.mem_singleton.mp hc
        · rw [hown]
          exact fun _ => List.mem_singleton_self _
      · rename_i hrefreshing
        exact ⟨w, [], rfl, nofun, nofun, fun h => absurd h hrefreshing⟩
    obtain ⟨w₁, l₁, h₁, honly₁, hquiet₁, hall₁⟩ := hfirst
    obtain ⟨w₂, l₂, h₂, honly₂, hquiet₂, hall₂⟩ := ih w₁
    refine ⟨w₂, l₁ ++ l₂, ?_, ?_, ?_, ?_⟩
    · rw [releaseSlots, Prog.bind_of_ok h₁, h₂]
      rfl
    · intro c hc
      rw [ownCalls_append] at hc
      rcases List.mem_append.mp hc with hc | hc
      · exact ⟨save, List.mem_cons_self, honly₁ c hc⟩
      · obtain ⟨s, hs, he⟩ := honly₂ c hc
        exact ⟨s, List.mem_cons_of_mem _ hs, he⟩
    · intro e he
      rcases List.mem_append.mp he with he | he
      · exact hquiet₁ e he
      · exact hquiet₂ e he
    · intro s hs hrefreshing
      rw [ownCalls_append]
      rcases List.mem_cons.mp hs with rfl | hs
      · exact List.mem_append_left _ (hall₁ hrefreshing)
      · exact List.mem_append_right _ (hall₂ s hs hrefreshing)

/-- Puts are made one after another, up to the first that the clock panics at. -/
theorem putSaves_calls (response : CachedResponse) (saves : List PendingCacheSave) (w : World σ) :
    ∃ r w' l, putSaves response saves w = some (r, w', l) ∧
      (∀ c ∈ ownCalls l, ∃ save ∈ saves, ∃ outcome, c = (.put save.key response (some save.ttl), .put outcome)) ∧
      (∀ e ∈ l, e.IsCache) ∧
      ((r = .ok () ∧ (∀ c ∈ ownCalls l, c.2 ≠ .put .panicked) ∧
          ∀ save ∈ saves, ∃ outcome, (.put save.key response (some save.ttl), .put outcome) ∈ ownCalls l) ∨
        (r = .error .panic ∧ ∃ c ∈ ownCalls l, c.2 = .put .panicked)) := by
  induction saves generalizing w with
  | nil => exact ⟨_, w, [], rfl, nofun, nofun, Or.inl ⟨rfl, nofun, nofun⟩⟩
  | cons save saves ih =>
    obtain ⟨r₁, w₁, l₁, outcome, h₁, ⟨hown, hquiet₁⟩, ⟨rfl, hp⟩ | ⟨rfl, rfl⟩⟩ := putKey_calls save.key response (some save.ttl) w
    · obtain ⟨r, w₂, l₂, h₂, honly, hquiet₂, hend⟩ := ih w₁
      refine ⟨r, w₂, l₁ ++ l₂, ?_, ?_, ?_, ?_⟩
      · rw [putSaves, Prog.bind_of_ok h₁, h₂]
        rfl
      · intro c hc
        rw [ownCalls_append, hown] at hc
        rcases List.mem_cons.mp hc with rfl | hc
        · exact ⟨save, List.mem_cons_self, outcome, rfl⟩
        · obtain ⟨s, hs, he⟩ := honly c hc
          exact ⟨s, List.mem_cons_of_mem _ hs, he⟩
      · intro e he
        rcases List.mem_append.mp he with he | he
        · exact hquiet₁ e he
        · exact hquiet₂ e he
      · rw [ownCalls_append, hown, List.singleton_append]
        rcases hend with ⟨hr, hno, hall⟩ | ⟨hr, c, hc, hpanic⟩
        · refine Or.inl ⟨hr, ?_, ?_⟩
          · intro c hc
            rcases List.mem_cons.mp hc with rfl | hc
            · exact fun he => hp (CacheAnswer.put.inj he)
            · exact hno c hc
          · intro s hs
            rcases List.mem_cons.mp hs with rfl | hs
            · exact ⟨outcome, List.mem_cons_self⟩
            · obtain ⟨o, ho⟩ := hall s hs
              exact ⟨o, List.mem_cons_of_mem _ ho⟩
        · exact Or.inr ⟨hr, c, List.mem_cons_of_mem _ hc, hpanic⟩
    · refine ⟨_, w₁, l₁, ?_, ?_, hquiet₁, Or.inr ⟨rfl, ?_⟩⟩
      · rw [putSaves]
        exact Prog.bind_of_error h₁
      · intro c hc
        rw [hown] at hc
        cases List.mem_singleton.mp hc
        exact ⟨save, List.mem_cons_self, _, rfl⟩
      · rw [hown]
        exact ⟨_, List.mem_singleton_self _, rfl⟩

/-- The saves of a run always end. -/
theorem saves_calls (saves : List PendingCacheSave) (output : PipelineOutput) (w : World σ) :
    ∃ r w' l, runPendingCacheSaves saves output w = some (r, w', l) ∧ SavesCalls saves output r l := by
  unfold runPendingCacheSaves
  cases hu : uncacheable output with
  | true =>
    obtain ⟨w', l, h, honly, hquiet, hall⟩ := releaseSlots_calls saves w
    refine ⟨_, w', l, h, ?_, hquiet, Or.inl ⟨rfl, ?_⟩, ?_⟩
    · exact fun c hc => Or.inl ⟨hu, honly c hc⟩
    · intro c hc
      obtain ⟨_, -, rfl⟩ := honly c hc
      nofun
    · exact fun _ save hs => Or.inl (hall save hs)
  | false =>
    obtain ⟨r, w', l, h, honly, hquiet, hend⟩ := putSaves_calls output.response saves w
    refine ⟨r, w', l, h, fun c hc => Or.inr ⟨hu, honly c hc⟩, hquiet, ?_, ?_⟩
    · rcases hend with ⟨hr, hno, -⟩ | hpanic
      · exact Or.inl ⟨hr, hno⟩
      · exact Or.inr hpanic
    · intro hr save hs
      rcases hend with ⟨-, -, hall⟩ | ⟨hpanic, -⟩
      · exact Or.inr (hall save hs)
      · rw [hr] at hpanic
        cases hpanic

/-- Saves look nothing up. -/
theorem SavesCalls.not_lookup {saves : List PendingCacheSave} {output : PipelineOutput} {r : Except Failure Unit} {l : List Event}
    (h : SavesCalls saves output r l) (key : String) (answer : CacheAnswer) : (.lookup key, answer) ∉ ownCalls l := by
  intro hmem
  rcases h.only _ hmem with ⟨-, save, -, he⟩ | ⟨-, save, -, outcome, he⟩
  · cases he
  · cases he

/-- The final saves put what is returned, or release the slots. -/
theorem savesCalls_of_eq {saves : List PendingCacheSave} {output : PipelineOutput} {w w' : World σ} {r : Except Failure Unit}
    {l : List Event} (h : runPendingCacheSaves saves output w = some (r, w', l)) : SavesCalls saves output r l := by
  obtain ⟨_, _, _, heq, hcalls⟩ := saves_calls saves output w
  rw [h] at heq
  cases heq
  exact hcalls

/-! ## Runs -/

/-- How a run stands with the cache when it ends: a failed step, saves that the clock panics at, or saves of what it returns. -/
inductive RunCalls : Except Failure PipelineOutput → List Event → Prop
  | failed {f : Failure} {l : List Event} {kept : List PendingCacheSave} (h : Keeps (ownCalls l) kept) : RunCalls (.error f) l
  | panicked {output : PipelineOutput} {l₁ l₂ : List Event} {kept : List PendingCacheSave} (h : Keeps (ownCalls l₁) kept)
      (hsaves : SavesCalls kept output (.error .panic) l₂) : RunCalls (.error .panic) (l₁ ++ l₂)
  | returned {output : PipelineOutput} {l₁ l₂ : List Event} {kept : List PendingCacheSave} (h : Keeps (ownCalls l₁) kept)
      (hsaves : SavesCalls kept output (.ok ()) l₂) : RunCalls (.ok output) (l₁ ++ l₂)

/-- A run looks keys up, and at its end puts or releases. -/
theorem runPipeline_calls {pipeline : Pipeline} {input : Value} {handled : Option String} {w w' : World σ}
    {r : Except Failure PipelineOutput} {l : List Event}
    (h : runPipeline env run pipeline input handled w = some (r, w', l)) : RunCalls r l := by
  obtain ⟨f, hloop, rfl⟩ | ⟨last, w₁, l₁, l₂, hloop, hend, rfl⟩ := Prog.bind_eq_some h
  · cases loopSteps_calls (s := .start input handled) rfl hloop with
    | failed hkeeps => exact .failed hkeeps
    | panicked hkeeps hsaves => exact .panicked hkeeps (savesCalls_of_eq hsaves)
  · cases loopSteps_calls (s := .start input handled) rfl hloop with
    | @through s _ _ kept hkeeps hkept =>
      obtain rfl : s.pipeCtx.pendingCacheSaves = kept := hkept
      obtain ⟨f, hsaves, rfl⟩ | ⟨_, w₂, l₃, l₄, hsaves, hret, rfl⟩ := Prog.bind_eq_some hend
      · obtain rfl := saves_error hsaves
        exact .panicked hkeeps (savesCalls_of_eq hsaves)
      · cases hret
        rw [List.append_nil]
        exact .returned hkeeps (savesCalls_of_eq hsaves)
    | returned hkeeps hsaves =>
      cases hend
      rw [List.append_nil]
      exact .returned hkeeps (savesCalls_of_eq hsaves)

/-- So does every run, whatever its fuel. -/
theorem execute_calls {n : Nat} {pipeline : Pipeline} {input : Value} {handled : Option String} {w w' : World σ}
    {r : Except Failure PipelineOutput} {l : List Event}
    (h : executeWithErrorShortCircuit env n pipeline input handled w = some (r, w', l)) : RunCalls r l := by
  obtain ⟨m, rfl⟩ := execute_pos h
  exact runPipeline_calls h

/-- A lookup of a run stands before its saves. -/
theorem split_of_lookup {saves : List PendingCacheSave} {output : PipelineOutput} {r : Except Failure Unit}
    {a b l₁ l₂ : List Event} {now : Nat} {key : String} {answer : CacheAnswer} (hsaves : SavesCalls saves output r l₂)
    (h : l₁ ++ l₂ = a ++ .cache true now (.lookup key) answer :: b) :
    ∃ b₁, l₁ = a ++ .cache true now (.lookup key) answer :: b₁ ∧ b = b₁ ++ l₂ := by
  have hnot : Event.cache true now (.lookup key) answer ∉ l₂ := fun hmem =>
    hsaves.not_lookup key answer (ownCalls_of_mem hmem)
  rcases List.append_eq_append_iff.mp h with ⟨c, -, hl⟩ | ⟨c, hl, hb⟩
  · exact absurd (hl ▸ List.mem_append_right _ List.mem_cons_self) hnot
  · cases c with
    | nil =>
      rw [List.nil_append] at hb
      exact absurd (hb ▸ List.mem_cons_self) hnot
    | cons e c =>
      cases hb
      exact ⟨c, hl, rfl⟩

end WebPipe
