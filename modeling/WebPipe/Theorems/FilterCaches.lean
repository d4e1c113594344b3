import WebPipe.Runtime.Jq

namespace WebPipe

/-! ## The thread caches of compiled filters do not show -/

namespace JqEngine

variable {μ φ : Type} {engine : JqEngine μ φ} {caches : Nat → FilterCache φ}

/-- With sound caches an evaluation answers what the filter compiled anew would. -/
theorem evaluate_fst (h : ∀ t, Memo.Sound engine.compileFilter (caches t)) {σ : Type} (env : ExecutionEnv σ)
    (hjq : env.jq = engine.answer) (call : JqCall) : (engine.evaluate caches call).1 = env.evaluate call.expr call.input := by
  have hlookup : (engine.getOrCompile caches call.thread (Text.trim call.expr)).1 = engine.compileFilter (Text.trim call.expr) :=
    (h call.thread).lookupOr_fst _
  unfold evaluate ExecutionEnv.evaluate
  rw [hjq, answer, ← hlookup]
  obtain ⟨found, caches'⟩ := engine.getOrCompile caches call.thread (Text.trim call.expr)
  cases found with
  | error message => rfl
  | ok filter => cases hrun : engine.firstResult filter call.input <;> simp [hrun]

/-- The caches an evaluation leaves are those of its lookup. -/
theorem evaluate_snd (engine : JqEngine μ φ) (caches : Nat → FilterCache φ) (call : JqCall) :
    (engine.evaluate caches call).2 = (engine.getOrCompile caches call.thread (Text.trim call.expr)).2 := by
  unfold evaluate
  obtain ⟨found, caches'⟩ := engine.getOrCompile caches call.thread (Text.trim call.expr)
  cases found with
  | error message => rfl
  | ok filter => cases hrun : engine.firstResult filter call.input <;> simp [hrun]

/-- The evaluations of a run of threads answer one by one what the filters compiled anew would. -/
theorem evaluateAll_fst {σ : Type} (env : ExecutionEnv σ) (hjq : env.jq = engine.answer) (calls : List JqCall) :
    ∀ caches : Nat → FilterCache φ, (∀ t, Memo.Sound engine.compileFilter (caches t)) →
      (engine.evaluateAll caches calls).1 = calls.map fun call => env.evaluate call.expr call.input := by
  induction calls with
  | nil => intro caches _; rfl
  | cons call calls ih =>
    intro caches h
    simp only [evaluateAll, List.map_cons, evaluate_fst h env hjq, evaluate_snd, getOrCompile,
      ih _ (Memo.sound_lookupAt h _ _)]

/-- What a thread compiles in a run is what the run of its own lookups computes. -/
theorem compilationsOn_eq (engine : JqEngine μ φ) (thread : Nat) (calls : List JqCall) :
    ∀ caches : Nat → FilterCache φ, engine.compilationsOn thread caches calls =
      Memo.computed engine.compileFilter (caches thread)
        ((calls.filter fun call => call.thread = thread).map fun call => Text.trim call.expr) := by
  induction calls with
  | nil => intro caches; rfl
  | cons call calls ih =>
    intro caches
    by_cases ht : call.thread = thread
    · subst ht
      simp only [compilationsOn, ih, evaluate_snd, getOrCompile, Memo.lookupAt, Function.update_self, true_and,
        List.filter_cons_of_pos, decide_true, List.map_cons, Memo.computed]
      cases (caches call.thread).peek (Text.trim call.expr) <;> rfl
    · simp only [compilationsOn, ih, evaluate_snd, getOrCompile, Memo.lookupAt, Function.update_of_ne (Ne.symm ht), ht,
        false_and, if_false, decide_false, Bool.false_eq_true, not_false_eq_true, List.filter_cons_of_neg]

end JqEngine

/-- In whatever order the threads evaluate filters, and whatever their caches have dropped, each evaluation answers what the
executor's environment says of its own filter and input. -/
theorem filter_caches_are_transparent {μ φ : Type} (engine : JqEngine μ φ) {σ : Type} (env : ExecutionEnv σ)
    (calls : List JqCall) :
    (engine.evaluateAll (fun _ => FilterCache.empty φ) calls).1 =
      calls.map fun call => { env with jq := engine.answer }.evaluate call.expr call.input :=
  JqEngine.evaluateAll_fst { env with jq := engine.answer } rfl calls _ fun _ => Memo.sound_new _ _ _

/-- A thread compiles a filter that compiles once at most as long as no more than 4096 such filters are asked of it, and one that
does not compile at every evaluation. -/
theorem filters_compile_once {μ φ : Type} (engine : JqEngine μ φ) (calls : List JqCall) (thread : Nat) (exprs : List String)
    (hcap : exprs.length ≤ 4096)
    (hexprs : ∀ call ∈ calls, call.thread = thread → ∀ filter, engine.compileFilter (Text.trim call.expr) = .ok filter →
      Text.trim call.expr ∈ exprs) (expr : String) :
    (∀ filter, engine.compileFilter expr = .ok filter →
        (engine.compilationsOn thread (fun _ => FilterCache.empty φ) calls).count expr ≤ 1) ∧
      ∀ e, engine.compileFilter expr = .error e →
        (engine.compilationsOn thread (fun _ => FilterCache.empty φ) calls).count expr =
          calls.countP fun call => call.thread = thread ∧ Text.trim call.expr = expr := by
  rw [JqEngine.compilationsOn_eq]
  constructor
  · intro filter hok
    refine Memo.count_computed_of_ok hok _ ?_ _ (Memo.fits_new _ hcap : Memo.Fits exprs _)
    intro k hk v hv
    obtain ⟨call, hcall, rfl⟩ := List.mem_map.mp hk
    obtain ⟨hin, ht⟩ := List.mem_filter.mp hcall
    exact hexprs call hin (of_decide_eq_true ht) v hv
  · intro e herror
    rw [Memo.count_computed_of_error herror _ (FilterCache.empty φ) (Memo.sound_new _ _ _), List.count, List.countP_map, List.countP_filter]
    refine List.countP_congr ?_
    intro call _
    simp [and_comm]

/-- An engine that knows the identity filter only. -/
def identityEngine : JqEngine Unit Unit where
  load expr := if expr = "." then .ok () else .error "unexpected token"
  compile := .ok
  run _ input := some (.ok input)

theorem filters_compile_once_identity :
    (identityEngine.compilationsOn 0 (fun _ => FilterCache.empty Unit)
      [⟨0, ".", .null⟩, ⟨1, ".", .null⟩, ⟨0, " .", .bool true⟩]).count "." ≤ 1 := by
  refine (filters_compile_once identityEngine _ 0 ["."] (by decide) ?_ ".").1 () rfl
  intro call _ _ filter hok
  simp only [JqEngine.compileFilter, identityEngine] at hok
  by_cases hdot : Text.trim call.expr = "."
  · simp [hdot]
  · simp [hdot] at hok

end WebPipe
