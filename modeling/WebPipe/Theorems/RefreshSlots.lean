import WebPipe.Lemmas.RunCalls

/-!
# Refresh slots are given back

A run that is elected to refresh a key and that returns an output gives the slot back, unless the store refuses what it saves. A run
that ends in an error gives nothing back: its saves are lost with its context.
-/

namespace WebPipe

variable {σ : Type}

/-- The slots that the run is elected for are free when it has ended, by an output or an error, and nobody was elected since. -/
def GivesSlotsBack (env : ExecutionEnv σ) (fuel : Nat) (pipeline : Pipeline) (input : Value) (handled : Option String)
    (w : World σ) : Prop :=
  ∀ r w' l, executeWithErrorShortCircuit env fuel pipeline input handled w = some (r, w', l) → r ≠ .error .panic →
    ∀ a now key response b, l = a ++ .cache true now (.lookup key) (.looked (.refresh response)) :: b →
      (∀ record ∈ callsOf b, ¬ record.Elects key) → w'.cache.Unclaimed key

/-- A release, or a put that the store admits, gives the slot back. -/
theorem frees_of_saved {c c' : CacheStore} {A B : List CacheRecord} {record : CacheRecord} {key : String}
    (h : c.Serves (A ++ record :: B) c')
    (hcall : record.call = .clearRefresh key ∨ ∃ response ttlSecs, record.call = .put key response ttlSecs ∧
      record.answer ≠ .put .panicked ∧ c.Admits response ttlSecs) : record.Frees key := by
  rcases hcall with hclear | ⟨response, ttlSecs, hput, hanswer, hadmits⟩
  · exact Or.inl hclear
  · obtain ⟨c₁, h₁, h₂⟩ := h.split
    cases h₂ with
    | cons _ =>
      cases hput
      have hlimits := h₁.sameLimits
      have hadmits₁ : c₁.Admits response ttlSecs := by
        unfold CacheStore.Admits at *
        rw [hlimits.1, hlimits.2.1]
        exact hadmits
      exact CacheStore.frees_of_admits hadmits₁ fun hp => hanswer (congrArg CacheAnswer.put hp)

/-- A run that returns an output gives back every slot it was elected for, whatever error type its steps handle: it releases the
slot, or stores a response, when what it puts under the key passes the first checks of the store. -/
theorem slots_given_back (env : ExecutionEnv σ) (fuel : Nat) (pipeline : Pipeline) (input : Value) (handled : Option String)
    (output : PipelineOutput) (w w' : World σ) (l : List Event)
    (h : executeWithErrorShortCircuit env fuel pipeline input handled w = some (.ok output, w', l)) (a b : List Event) (now : Nat) (key : String) (response : CachedResponse)
    (hl : l = a ++ .cache true now (.lookup key) (.looked (.refresh response)) :: b)
    (hno : ∀ record ∈ callsOf b, ¬ record.Elects key)
    (hadmits : ∀ t saved ttlSecs answer, .cache true t (.put key saved ttlSecs) answer ∈ b → w.cache.Admits saved ttlSecs) :
    w'.cache.Unclaimed key := by
  have hserves : w.cache.Serves (callsOf l) w'.cache := serves_execute h
  cases execute_calls h with
  | @returned output l₁ l₂ kept hkeeps hsaves =>
    obtain ⟨b₁, hl₁, rfl⟩ := split_of_lookup hsaves hl
    have hlooked : (.lookup key, .looked (.refresh response)) ∈ ownCalls l₁ :=
      ownCalls_of_mem (t := now) (hl₁ ▸ List.mem_append_right _ List.mem_cons_self)
    obtain ⟨ttl, hkept⟩ := hkeeps.save_mem hlooked
    have hsave := hkept { key := key, ttl := ttl, refreshing := true } (List.mem_singleton_self _)
    -- the save of the election was released or put, and that call is among the later ones
    have hfreed : ∃ t call answer, Event.cache true t call answer ∈ l₂ ∧ (call = .clearRefresh key ∨
        ∃ saved ttlSecs, call = .put key saved ttlSecs ∧ answer ≠ .put .panicked ∧ w.cache.Admits saved ttlSecs) := by
      rcases hsaves.all rfl _ hsave with hclear | ⟨outcome, hput⟩
      · obtain ⟨t, ht⟩ := mem_ownCalls.mp (hclear rfl)
        exact ⟨t, _, _, ht, Or.inl rfl⟩
      · obtain ⟨t, ht⟩ := mem_ownCalls.mp hput
        refine ⟨t, _, _, ht, Or.inr ⟨_, _, rfl, ?_, hadmits _ _ _ _ (List.mem_append_right _ ht)⟩⟩
        rcases hsaves.ends with ⟨-, hquiet⟩ | ⟨hpanic, -⟩
        · exact hquiet _ hput
        · cases hpanic
    obtain ⟨t, call, answer, hmem, hcall⟩ := hfreed
    obtain ⟨p, q, rfl⟩ := List.append_of_mem hmem
    have hsplit : callsOf (l₁ ++ (p ++ .cache true t call answer :: q)) =
        callsOf (l₁ ++ p) ++ { now := t, call := call, answer := answer } :: callsOf q := by
      rw [← List.append_assoc, callsOf_append]
      rfl
    rw [hsplit] at hserves
    refine hserves.unclaimed_of_frees (frees_of_saved hserves hcall) fun record hr => hno record ?_
    rw [callsOf_append, callsOf_append]
    exact List.mem_append_right _ (List.mem_append_right _ (List.mem_cons_of_mem _ hr))

/-- A run that ends in an error has released nothing and put nothing. -/
theorem error_gives_nothing_back {env : ExecutionEnv σ} {fuel : Nat} {pipeline : Pipeline} {input : Value}
    {handled : Option String} {e : WebPipeError} {w w' : World σ} {l : List Event}
    (h : executeWithErrorShortCircuit env fuel pipeline input handled w = some (.error (.err e), w', l)) :
    ∀ c ∈ ownCalls l, ∃ key lookup, c = (.lookup key, .looked lookup) := by
  cases execute_calls h with
  | failed hkeeps => exact fun c hc => hkeeps.isLookup hc

/-- The cache is the only middleware. -/
def cacheEnv : ExecutionEnv Unit :=
  { registry := fun name => if name = "cache" then some .cache else none }

/-- A store in which `page` is stale and nobody refreshes it. -/
def staleWorld : World Unit :=
  { World.start ((CacheStore.ofSettings (.ofNew 16 60 (fromSecs 100000))).putResponse 0 "page"
      { body := .string "old", contentType := "text/html", statusCode := none } (some 1)).2 () with clock := fromSecs 2 }

/-- Cache the page for a second. -/
def cachePage : PipelineStep := .regular { name := "cache", config := "ttl: 1, keyTemplate: page" }

theorem slots_given_back_page :
    ∃ output w' l, executeWithErrorShortCircuit cacheEnv 1 { steps := [cachePage] } (.object []) none staleWorld =
      some (.ok output, w', l) ∧ w'.cache.Unclaimed "page" := by
  refine ⟨_, _, _, rfl, slots_given_back cacheEnv 1 { steps := [cachePage] } (.object []) none _ staleWorld _ _ rfl [_, _] [_, _] _ "page" _
    rfl ?_ ?_⟩
  · intro record hr helects
    cases List.mem_singleton.mp hr
    cases helects.1
  · intro t saved ttlSecs answer hmem
    rcases List.mem_cons.mp hmem with he | hmem
    · cases he
    · cases List.mem_singleton.mp hmem
      exact ⟨show 1 ≠ 0 by decide, show CacheStore.estimateSize (.object []) ≤ 1048576 by decide⟩

/-- The page is elected, and a loop over a missing member fails: the slot is held. -/
theorem slot_leaks : ¬ GivesSlotsBack cacheEnv 2 { steps := [cachePage, .foreach "items" { steps := [] } {}] } (.object [])
    none staleWorld := by
  intro h
  have hfree := h _ _ _ rfl (by nofun) [_, _] _ "page" _ _ rfl (by nofun)
  cases hfree _ rfl

end WebPipe
