import WebPipe.Server.Flags
import WebPipe.Lemmas.Blind

/-!
# When a pipeline may go without feature flags

The server loads no flags for a route whose pipeline the analysis clears. The analysis reads the text of a call as the name of a
pipeline; the executor resolves it, as a scoped reference or through a variable. Where the two differ the analysis misses a call, and it
sees no resolver. A cleared pipeline reads no flag exactly when no call that it misses leads to one, and then it runs the same whatever
the flags are.
-/

namespace WebPipe

open Search

variable {σ : Type} {env : ExecutionEnv σ}

/-- Contexts that differ in their feature flags only. -/
def SameButFlags (c c' : RequestContext) : Prop := ∃ flags, c' = { c with featureFlags := flags }

/-- A step or a case of the pipeline itself, not of a nested one, has a `@flag` tag. -/
def HasOwnFlag (p : Pipeline) : Prop :=
  (∃ s, .regular s ∈ p.steps ∧ ∃ e, s.condition = some e ∧ tagExprHasFlag e = true) ∨
    ∃ branches default location, .dispatch branches default location ∈ p.steps ∧ ∃ b ∈ branches, tagExprHasFlag b.condition = true

/-- A run of the pipeline may come to a `@flag` tag. -/
def ReadsFlag (env : ExecutionEnv σ) (p : Pipeline) : Prop := ∃ q, Leads env p q ∧ HasOwnFlag q

/-- Wherever a step may run another pipeline than the analysis assumed, no flag is read. -/
def MissedCallsClean (env : ExecutionEnv σ) (p : Pipeline) : Prop :=
  ∀ q s t, Leads env p q → .regular s ∈ q.steps → StartsRun env (.regular s) t → analyzedTarget env s ≠ some t → ¬ ReadsFlag env t

/-- No middleware that runs of the pipeline may call reads the flags. -/
def CallsIgnoreFlags (env : ExecutionEnv σ) (p : Pipeline) : Prop :=
  ∀ q s, Leads env p q → .regular s ∈ q.steps → ∀ behavior execute,
    env.registry (effectiveName env s) = some (.other behavior execute) → MiddlewareAgrees SameButFlags execute

/-! ## What the analysis sees -/

/-- The analysis meets every flag of a pipeline. -/
theorem hits_of_hasOwnFlag {p : Pipeline} (h : HasOwnFlag p) : Hits (pipelineItems env) p := by
  rcases h with ⟨s, hs, e, he, hflag⟩ | ⟨branches, default, location, hd, b, hb, hflag⟩
  · refine List.mem_flatMap.mpr ⟨_, hs, List.mem_append_left _ ?_⟩
    rw [if_pos (Or.inl (by rw [he]; exact hflag))]
    exact List.mem_singleton_self _
  · refine List.mem_flatMap.mpr ⟨_, hd, List.mem_append_left _ (List.mem_flatMap.mpr ⟨b, hb, List.mem_append_left _ ?_⟩)⟩
    rw [if_pos hflag]
    exact List.mem_singleton_self _

/-- The analysis goes into every pipeline that a run starts, but for calls that it misses. -/
theorem refers_of_starts {p q : Pipeline} (h : Starts env p q) :
    Refers (pipelineItems env) p q ∨
      ∃ s, .regular s ∈ p.steps ∧ StartsRun env (.regular s) q ∧ analyzedTarget env s ≠ some q := by
  obtain ⟨step, hstep, hstarts⟩ := h
  have hitem : Item.ref q ∈ stepItems env step → Refers (pipelineItems env) p q := fun hi => List.mem_flatMap.mpr ⟨step, hstep, hi⟩
  -- a regular step runs what the analysis looks up for it, or the analysis misses the run
  have hregular : ∀ s, step = .regular s → Refers (pipelineItems env) p q ∨
      ∃ s, .regular s ∈ p.steps ∧ StartsRun env (.regular s) q ∧ analyzedTarget env s ≠ some q := by
    rintro s rfl
    by_cases hseen : analyzedTarget env s = some q
    · refine Or.inl (hitem (List.mem_append_right _ ?_))
      rw [hseen]
      exact List.mem_singleton_self _
    · exact Or.inr ⟨s, hstep, hstarts, hseen⟩
  cases hstarts with
  | named => exact hregular _ rfl
  | resolver => exact hregular _ rfl
  | resultBranch hb => exact Or.inl (hitem (List.mem_map_of_mem hb))
  | condition => exact Or.inl (hitem (by simp [stepItems]))
  | thenBranch => exact Or.inl (hitem (by simp [stepItems]))
  | elseBranch => exact Or.inl (hitem (by simp [stepItems]))
  | @dispatchCase branches default location b hb =>
    refine Or.inl (hitem (List.mem_append_left _ (List.mem_flatMap.mpr ⟨b, hb, List.mem_append_right _ ?_⟩)))
    exact List.mem_singleton_self _
  | dispatchDefault => exact Or.inl (hitem (List.mem_append_right _ (by simp)))
  | foreachItem => exact Or.inl (hitem (by simp [stepItems]))

/-- A pipeline that leads to one that reads a flag reads a flag. -/
theorem ReadsFlag.of_leads {p q : Pipeline} (h : ReadsFlag env q) (hq : Leads env p q) : ReadsFlag env p := by
  obtain ⟨x, hx, hflag⟩ := h
  exact ⟨x, hq.trans hx, hflag⟩

/-- From a pipeline that is quiet to the analysis a flag is read behind missed calls only. -/
theorem not_readsFlag_of_quiet {p : Pipeline} (hquiet : Quiet (pipelineItems env) p) (hclean : MissedCallsClean env p) :
    ¬ ReadsFlag env p := by
  rintro ⟨q, hq, hflag⟩
  induction hq using Relation.ReflTransGen.head_induction_on with
  | refl => exact hquiet.2 q .refl (hits_of_hasOwnFlag hflag)
  | @head p x hpx hxq ih =>
    rcases refers_of_starts hpx with hrefers | ⟨s, hs, hruns, hmissed⟩
    · exact ih (hquiet.of_refers hrefers) fun y s t hy => hclean y s t (.head hpx hy)
    · exact hclean p s x .refl hs hruns hmissed ⟨q, hxq, hflag⟩

/-! ## What a run sees -/

/-- The executor itself reads no flags but in tags. -/
theorem hides_flags (env : ExecutionEnv σ) : Hides env SameButFlags where
  register h _ _ := by
    obtain ⟨flags, rfl⟩ := h
    exact ⟨flags, rfl⟩
  logCall h _ _ := by
    obtain ⟨flags, rfl⟩ := h
    exact ⟨flags, rfl⟩
  profiler h _ := by
    obtain ⟨flags, rfl⟩ := h
    exact ⟨flags, rfl⟩
  cachePolicy h _ := by
    obtain ⟨flags, rfl⟩ := h
    exact ⟨flags, rfl⟩
  stepMode h _ := by
    obtain ⟨flags, rfl⟩ := h
    exact ⟨flags, rfl⟩
  debugger _ _ _ h := by
    obtain ⟨flags, rfl⟩ := h
    exact ⟨rfl, rfl⟩

theorem takesAgree_flags (name : String) : TakesAgree SameButFlags name := by
  rintro c _ ⟨flags, rfl⟩
  exact ⟨rfl, flags, rfl⟩

/-- An expression without a `@flag` tag reads the same under all flags. -/
theorem tagsAgree_flags {e : TagExpr} (h : tagExprHasFlag e = false) : TagsAgree env SameButFlags e := by
  rintro c _ v ⟨flags, rfl⟩
  induction e with
  | tag tag =>
    have hname : tag.name ≠ "flag" := of_decide_eq_false h
    unfold checkTagExpr checkTag
    rw [if_neg hname, if_neg hname]
    rfl
  | and left right ihl ihr =>
    obtain ⟨hl, hr⟩ := Bool.or_eq_false_iff.mp h
    rw [checkTagExpr, checkTagExpr, ihl hl, ihr hr]
  | or left right ihl ihr =>
    obtain ⟨hl, hr⟩ := Bool.or_eq_false_iff.mp h
    rw [checkTagExpr, checkTagExpr, ihl hl, ihr hr]

/-- A pipeline that never comes to a flag does not see the flags. -/
theorem tame_of_not_readsFlag {p : Pipeline} (hm : CallsIgnoreFlags env p) (h : ¬ ReadsFlag env p) : Tame env SameButFlags p := by
  intro q hq
  have hown : ¬ HasOwnFlag q := fun hflag => h ⟨q, hq, hflag⟩
  refine ⟨fun s hs => ⟨?_, ?_, ?_⟩, ?_⟩
  · intro e he
    exact tagsAgree_flags (Bool.eq_false_iff.mpr fun hflag => hown (Or.inl ⟨s, hs, e, he, hflag⟩))
  · exact fun _ _ _ name _ => takesAgree_flags name
  · exact hm q s hq hs
  · intro branches default location hd b hb
    exact tagsAgree_flags (Bool.eq_false_iff.mpr fun hflag => hown (Or.inr ⟨branches, default, location, hd, b, hb, hflag⟩))

/-! ## Elision -/

/-- Of a pipeline that the analysis clears no run comes to a `@flag` tag exactly when no call that the analysis misses leads to one;
then every run has one outcome, and makes the same calls, under all flags. -/
theorem flag_elision_iff (env : ExecutionEnv σ) (fuel : ℕ) (p : Pipeline) (hm : CallsIgnoreFlags env p)
    (h : pipelineNeedsFlags env fuel p = some false) :
    (¬ ReadsFlag env p ↔ MissedCallsClean env p) ∧
      (MissedCallsClean env p → ∀ n input handled, Unseen SameButFlags (executeWithErrorShortCircuit env n p input handled)) := by
  have hquiet : Quiet (pipelineItems env) p := quiet_of_search (pipelineNeedsFlags_eq_search env fuel p ▸ h)
  refine ⟨⟨?_, not_readsFlag_of_quiet hquiet⟩, ?_⟩
  · intro hno q s t hq hs hruns _ hflag
    exact hno (hflag.of_leads (hq.tail ⟨.regular s, hs, hruns⟩))
  · intro hclean n input handled
    exact unseen_execute (hides_flags env) (tame_of_not_readsFlag hm (not_readsFlag_of_quiet hquiet hclean)) n input handled

/-- A page that anyone may see, and one for the users of a flag. -/
def openPage : Pipeline := { steps := [.regular { name := "reveal" }] }

def gatedPage : Pipeline :=
  { steps := [.regular { name := "reveal", condition := some (.tag { name := "flag", negated := false, args := ["beta"] }) }] }

/-- `reveal` answers with a secret; module 0 has `open`, and imports module 1, which has `gate`, as `lib`. -/
def scopedEnv : ExecutionEnv Unit :=
  { registry := fun name => if name = "reveal" then some (.stateless .transform fun _ => .ok ({}, .string "secret")) else none
    moduleRegistry := fun id => if id = 0 then some { importMap := fun ns => if ns = "lib" then some 1 else none } else none
    namedPipelines := fun m name =>
      if m = some 1 ∧ name = "gate" then some gatedPage else if m = some 0 ∧ name = "open" then some openPage else none }

/-- A step of module 0 that calls a pipeline. -/
def callStep (name : String) : RegularStep := { name := "pipeline", config := name, location := { moduleId := some 0 } }

/-- A route of module 0 that calls a pipeline. -/
def callOf (name : String) : Pipeline := { steps := [.regular (callStep name)] }

/-- Nothing is resolved with pipelines there. -/
theorem not_resolvesWith (name : String) (q : Pipeline) : ¬ ResolvesWith scopedEnv name q := by
  rintro ⟨resolvers, execute, hr, -⟩
  unfold scopedEnv at hr
  dsimp only at hr
  split at hr <;> cases hr

/-- A call starts the pipeline it calls. -/
theorem startsRun_callStep {name : String} {q : Pipeline} (h : StartsRun scopedEnv (.regular (callStep name)) q) :
    calledPipeline scopedEnv (callStep name) = some q := by
  cases h with
  | named hcalled => exact hcalled
  | resolver hresolves => exact absurd hresolves (not_resolvesWith _ _)

/-- So does the pipeline that consists of the call. -/
theorem starts_callOf {name : String} {q : Pipeline} (h : Starts scopedEnv (callOf name) q) :
    calledPipeline scopedEnv (callStep name) = some q := by
  obtain ⟨step, hstep, hstarts⟩ := h
  obtain rfl := List.mem_singleton.mp hstep
  exact startsRun_callStep hstarts

/-- The executor calls the open page. -/
theorem calledPipeline_open : calledPipeline scopedEnv (callStep "open") = some openPage := by
  have hname : effectiveName scopedEnv (callStep "open") = "pipeline" := by decide +kernel
  have hconfig : Text.trim (resolvedConfig scopedEnv (callStep "open")) = "open" := by decide +kernel
  have hplain : parseScopedRef "open" = (none, "open") := by decide +kernel
  rw [calledPipeline_of_name hname, hconfig, resolveNamedPipeline, hplain]
  rfl

/-- The analysis looks up the same page. -/
theorem analyzedTarget_open : analyzedTarget scopedEnv (callStep "open") = some openPage := by
  have htarget : Text.trim "open" = "open" := by decide +kernel
  simp [analyzedTarget, callStep, htarget, scopedEnv]

/-- The open page starts nothing. -/
theorem not_starts_openPage (q : Pipeline) : ¬ Starts scopedEnv openPage q := by
  rintro ⟨step, hstep, hstarts⟩
  obtain rfl := List.mem_singleton.mp hstep
  cases hstarts with
  | named hcalled => cases hcalled
  | resolver hresolves => exact not_resolvesWith _ _ hresolves

/-- A call of a pipeline of the same module is not missed. -/
theorem flag_elision_iff_open :
    Unseen SameButFlags (executeWithErrorShortCircuit scopedEnv 2 (callOf "open") .null none) := by
  have hm : CallsIgnoreFlags scopedEnv (callOf "open") := by
    intro _ _ _ _ behavior execute hr
    unfold scopedEnv at hr
    dsimp only at hr
    split at hr
    · cases hr
      exact fun c c' call ext hc => ⟨rfl, hc, rfl⟩
    · cases hr
  have hcleared : pipelineNeedsFlags scopedEnv 2 (callOf "open") = some false := by decide +kernel
  refine (flag_elision_iff scopedEnv 2 (callOf "open") hm hcleared).2 ?_ 2 .null none
  intro q s t hq hs hruns hmissed
  rcases Relation.ReflTransGen.cases_head hq with rfl | ⟨x, hx, hxq⟩
  · cases List.mem_singleton.mp hs
    have hcalled := startsRun_callStep hruns
    rw [calledPipeline_open] at hcalled
    rw [analyzedTarget_open] at hmissed
    exact absurd hcalled hmissed
  · have hx' := starts_callOf hx
    rw [calledPipeline_open] at hx'
    obtain rfl : openPage = x := Option.some.inj hx'
    rcases Relation.ReflTransGen.cases_head hxq with rfl | ⟨y, hy, -⟩
    · exact absurd ⟨_, hs, hruns⟩ (not_starts_openPage t)
    · exact absurd hy (not_starts_openPage y)

/-- A request under a set of flags. -/
def requestWith (flags : String → Option Bool) : World Unit :=
  { World.start (.ofSettings (.ofNew 16 60 (fromSecs 100000))) () with reqCtx := { featureFlags := flags } }

/-- The text that a run returns. -/
def textOf : Except Failure PipelineOutput → Option String
  | .ok output => output.state.asStr
  | .error _ => none

/-- The analysis clears a route that calls `lib::gate`, and the route reveals the secret under the flag only. -/
theorem gate_reads_flag : pipelineNeedsFlags scopedEnv 1 (callOf "lib::gate") = some false ∧
    ¬ Unseen SameButFlags (executePipelineInternal scopedEnv 2 (callOf "lib::gate") (.object [])) := by
  refine ⟨by decide +kernel, fun h => ?_⟩
  have hoff : (executePipelineInternal scopedEnv 2 (callOf "lib::gate") (.object []) (requestWith fun _ => none)).map
      (fun p => textOf p.1) = some none := by decide +kernel
  have hon : (executePipelineInternal scopedEnv 2 (callOf "lib::gate") (.object []) (requestWith fun _ => some true)).map
      (fun p => textOf p.1) = some (some "secret") := by decide +kernel
  have hsame : SameBut SameButFlags (requestWith fun _ => none) (requestWith fun _ => some true) :=
    ⟨rfl, rfl, rfl, rfl, fun _ => some true, rfl⟩
  rcases h _ _ hsame with ⟨hnone, -⟩ | ⟨r, w, w', l, hs, ht, -⟩
  · rw [hnone] at hoff
    cases hoff
  · rw [hs] at hoff
    rw [ht] at hon
    rw [Option.map_some] at hoff hon
    rw [hoff] at hon
    cases hon

end WebPipe
