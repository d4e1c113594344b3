import WebPipe.Lemmas.Registry
import WebPipe.Lemmas.TaskHistory

/-!
# Runs as histories of tasks

What a run does to the tasks of its request is a history of the tasks of all requests: the one in which every task ends while the join
that took it waits for it. The operations in the log of the run are performed in their order, each task known by the number of its spawn.
-/

namespace WebPipe

open Mailbox

variable {σ : Type} {env : ExecutionEnv σ}

/-! ## A join -/

/-- A join passes over a name that no task is registered under. -/
theorem join_pass {l : List TaskEvent} {s : TaskSystem} {name : String} {rest : List String} {results : Object} (h : TaskHistory l s)
    (hjoin : s.joining 0 = some { rest := name :: rest, awaited := none, results := results }) (hno : s.registry 0 name = none) :
    ∃ s', TaskHistory (l ++ [.passed 0 name]) s' ∧ s'.joining 0 = some { rest := rest, awaited := none, results := results } ∧
      s'.registry = s.registry ∧ s'.outcomes = s.outcomes ∧ s'.spawned = s.spawned := by
  refine ⟨_, h.step (TaskStep.pass hjoin hno), ?_, rfl, rfl, rfl⟩
  dsimp only
  exact Function.update_self ..

/-- A join takes a task, waits for its end and delivers it. -/
theorem join_await {l : List TaskEvent} {s : TaskSystem} {name : String} {rest : List String} {results : Object} {t : ℕ}
    (h : TaskHistory l s) (hjoin : s.joining 0 = some { rest := name :: rest, awaited := none, results := results })
    (hsome : s.registry 0 name = some t) (hlt : t < s.spawned) (hrun : s.outcomes t = none) (v : Value) :
    ∃ s', TaskHistory (l ++ [.took 0 name t, .completed t v, .delivered 0 name t]) s' ∧
      s'.joining 0 = some { rest := rest, awaited := none, results := IndexMap.insert results name v } ∧
      s'.registry 0 = Function.update (s.registry 0) name none ∧ s'.outcomes = Function.update s.outcomes t (some v) ∧
      s'.spawned = s.spawned := by
  have htake := h.step (TaskStep.take hjoin hsome)
  have hcomplete := htake.step (TaskStep.complete v hlt hrun)
  have hdeliver := hcomplete.step (@TaskStep.deliver _ 0 name rest results t v (by simp) (by simp))
  rw [List.append_assoc, List.append_assoc] at hdeliver
  refine ⟨_, hdeliver, ?_, ?_, rfl, rfl⟩
  · simp
  · simp

/-- A join begins. -/
theorem join_begin {l : List TaskEvent} {s : TaskSystem} (h : TaskHistory l s) (hidle : s.joining 0 = none) (names : List String) :
    ∃ s', TaskHistory (l ++ [.joins 0 names]) s' ∧ s'.joining 0 = some { rest := names, awaited := none, results := [] } ∧
      s'.registry = s.registry ∧ s'.outcomes = s.outcomes ∧ s'.spawned = s.spawned := by
  refine ⟨_, h.step (TaskStep.join names hidle), ?_, rfl, rfl, rfl⟩
  dsimp only
  exact Function.update_self ..

/-- A join that has looked up all its names ends. -/
theorem join_end {l : List TaskEvent} {s : TaskSystem} {results : Object} (h : TaskHistory l s)
    (hjoin : s.joining 0 = some { rest := [], awaited := none, results := results }) :
    ∃ s', TaskHistory (l ++ [.joined 0 results]) s' ∧ s'.joining 0 = none ∧ s'.registry = s.registry ∧ s'.outcomes = s.outcomes ∧
      s'.spawned = s.spawned := by
  refine ⟨_, h.step (TaskStep.endJoin hjoin), ?_, rfl, rfl, rfl⟩
  dsimp only
  exact Function.update_self ..

/-- The tasks that the request has registered are still to end, each under one name. -/
structure TasksRun (s : TaskSystem) : Prop where
  running : ∀ n t, s.registry 0 n = some t → t < s.spawned ∧ s.outcomes t = none
  apart : ∀ n n' t, s.registry 0 n = some t → s.registry 0 n' = some t → n = n'

/-- A task that is taken out is under no other name. -/
theorem TasksRun.of_taken {s s' : TaskSystem} {name n : String} {t t' : ℕ} (h : TasksRun s) (hname : s.registry 0 name = some t)
    (hregistry : s'.registry 0 = Function.update (s.registry 0) name none) (hn : s'.registry 0 n = some t') :
    n ≠ name ∧ s.registry 0 n = some t' ∧ t' ≠ t := by
  rw [hregistry] at hn
  by_cases he : n = name
  · subst he
    rw [Function.update_self] at hn
    cases hn
  · rw [Function.update_of_ne he] at hn
    refine ⟨he, hn, ?_⟩
    rintro rfl
    exact he (h.apart n name t' hn hname)

/-- The other tasks run on when one is taken out and ends. -/
theorem TasksRun.take {s s' : TaskSystem} {name : String} {t : ℕ} {v : Value} (h : TasksRun s) (hname : s.registry 0 name = some t)
    (hregistry : s'.registry 0 = Function.update (s.registry 0) name none)
    (houtcomes : s'.outcomes = Function.update s.outcomes t (some v)) (hspawned : s'.spawned = s.spawned) : TasksRun s' := by
  refine ⟨fun n t' hn => ?_, fun n n' t' hn hn' => ?_⟩
  · obtain ⟨-, hn, hne⟩ := h.of_taken hname hregistry hn
    rw [hspawned, houtcomes, Function.update_of_ne hne]
    exact h.running n t' hn
  · exact h.apart n n' t' (h.of_taken hname hregistry hn).2.1 (h.of_taken hname hregistry hn').2.1

/-- What a join has done that has looked up the rest of its names: each task under one of them has ended with the value of its name,
is gone from the registry and is among the results; all else is as it was. -/
structure AwaitsAll (value : String → Option Value) (rest : List String) (s : TaskSystem) (results : Object) (b : List TaskEvent)
    (s' : TaskSystem) (results' : Object) : Prop where
  aside : ∀ e ∈ b, ∀ request, e.Aside request
  joining : s'.joining 0 = some { rest := [], awaited := none, results := results' }
  spawned : s'.spawned = s.spawned
  registry : ∀ n, s'.registry 0 n = if n ∈ rest then none else s.registry 0 n
  outcomes : ∀ t v, s'.outcomes t = some v → s.outcomes t = some v ∨ ∃ n ∈ rest, s.registry 0 n = some t ∧ value n = some v
  running : ∀ n t, s'.registry 0 n = some t → s'.outcomes t = none
  results : ∀ n, IndexMap.get results' n = if n ∈ rest ∧ s.registry 0 n ≠ none then value n else IndexMap.get results n

/-- A name without a task adds nothing. -/
theorem AwaitsAll.pass {value : String → Option Value} {name : String} {rest : List String} {s s₁ s' : TaskSystem}
    {results results' : Object} {b : List TaskEvent} (h : AwaitsAll value rest s₁ results b s' results')
    (hname : s.registry 0 name = none) (hregistry : s₁.registry = s.registry) (houtcomes : s₁.outcomes = s.outcomes)
    (hspawned : s₁.spawned = s.spawned) : AwaitsAll value (name :: rest) s results (.passed 0 name :: b) s' results' := by
  refine ⟨fun e he => ?_, h.joining, h.spawned.trans hspawned, fun n => ?_, fun t v ht => ?_, h.running, fun n => ?_⟩
  · rcases List.mem_cons.mp he with rfl | he
    · exact fun _ => ⟨id, rfl⟩
    · exact h.aside e he
  · rw [h.registry, hregistry]
    by_cases hn : n = name
    · simp [hn, hname]
    · simp [hn]
  · rcases h.outcomes t v ht with ht | ⟨n, hn, ht, hv⟩
    · exact Or.inl (houtcomes ▸ ht)
    · exact Or.inr ⟨n, List.mem_cons_of_mem _ hn, hregistry ▸ ht, hv⟩
  · rw [h.results, hregistry]
    by_cases hn : n = name
    · simp [hn, hname]
    · simp [hn]

/-- A task that is taken ends with its value, which is put under its name. -/
theorem AwaitsAll.await {value : String → Option Value} {name : String} {rest : List String} {s s₁ s' : TaskSystem}
    {results results' : Object} {b : List TaskEvent} {t : ℕ} {v : Value}
    (h : AwaitsAll value rest s₁ (IndexMap.insert results name v) b s' results') (hrun : TasksRun s) (hname : s.registry 0 name = some t)
    (hv : value name = some v) (hregistry : s₁.registry 0 = Function.update (s.registry 0) name none)
    (houtcomes : s₁.outcomes = Function.update s.outcomes t (some v)) (hspawned : s₁.spawned = s.spawned) :
    AwaitsAll value (name :: rest) s results ([.took 0 name t, .completed t v, .delivered 0 name t] ++ b) s' results' := by
  refine ⟨fun e he => ?_, h.joining, h.spawned.trans hspawned, fun n => ?_, fun t' v' ht => ?_, h.running, fun n => ?_⟩
  · rcases List.mem_append.mp he with he | he
    · simp only [List.mem_cons, List.not_mem_nil, or_false] at he
      rcases he with rfl | rfl | rfl <;> exact fun _ => ⟨id, rfl⟩
    · exact h.aside e he
  · rw [h.registry, hregistry]
    by_cases hn : n = name
    · simp [hn]
    · simp [hn]
  · rcases h.outcomes t' v' ht with ht | ⟨n, hn, hreg, hv'⟩
    · rw [houtcomes] at ht
      by_cases he : t' = t
      · subst he
        rw [Function.update_self] at ht
        cases ht
        exact Or.inr ⟨name, List.mem_cons_self, hname, hv⟩
      · rw [Function.update_of_ne he] at ht
        exact Or.inl ht
    · exact Or.inr ⟨n, List.mem_cons_of_mem _ hn, (hrun.of_taken hname hregistry hreg).2.1, hv'⟩
  · rw [h.results, hregistry]
    by_cases hn : n = name
    · simp [hn, hname, hv]
    · simp [hn, IndexMap.get_insert_of_ne]

/-- A join awaits in turn the tasks that are still to end. -/
theorem join_loop {value : String → Option Value} {rest : List String} {l : List TaskEvent} {s : TaskSystem} {results : Object}
    (h : TaskHistory l s) (hjoin : s.joining 0 = some { rest := rest, awaited := none, results := results }) (hrun : TasksRun s)
    (hvalue : ∀ n ∈ rest, ∀ t, s.registry 0 n = some t → ∃ v, value n = some v) :
    ∃ b s' results', TaskHistory (l ++ b) s' ∧ AwaitsAll value rest s results b s' results' := by
  induction rest generalizing l s results with
  | nil =>
    refine ⟨[], s, results, ?_, nofun, hjoin, rfl, fun n => by simp, fun t v ht => Or.inl ht, fun n t hn => (hrun.running n t hn).2,
      fun n => by simp⟩
    rw [List.append_nil]
    exact h
  | cons name rest ih =>
    cases hname : s.registry 0 name with
    | none =>
      obtain ⟨s₁, hpass, hjoin₁, hregistry₁, houtcomes₁, hspawned₁⟩ := join_pass h hjoin hname
      have hrun₁ : TasksRun s₁ := by
        refine ⟨?_, ?_⟩
        · rw [hregistry₁, houtcomes₁, hspawned₁]
          exact hrun.running
        · rw [hregistry₁]
          exact hrun.apart
      obtain ⟨b, s', results', hend, hawaits⟩ := ih hpass hjoin₁ hrun₁ fun n hn => by
        rw [hregistry₁]
        exact hvalue n (List.mem_cons_of_mem _ hn)
      refine ⟨.passed 0 name :: b, s', results', ?_, hawaits.pass hname hregistry₁ houtcomes₁ hspawned₁⟩
      rw [List.append_cons]
      exact hend
    | some t =>
      obtain ⟨v, hv⟩ := hvalue name List.mem_cons_self t hname
      obtain ⟨hlt, hnone⟩ := hrun.running name t hname
      obtain ⟨s₁, hawait, hjoin₁, hregistry₁, houtcomes₁, hspawned₁⟩ := join_await h hjoin hname hlt hnone v
      obtain ⟨b, s', results', hend, hawaits⟩ := ih hawait hjoin₁ (hrun.take hname hregistry₁ houtcomes₁ hspawned₁) fun n hin t' hn =>
        hvalue n (List.mem_cons_of_mem _ hin) t' (hrun.of_taken hname hregistry₁ hn).2.1
      refine ⟨_, s', results', ?_, hawaits.await hrun hname hv hregistry₁ houtcomes₁ hspawned₁⟩
      rw [← List.append_assoc]
      exact hend

/-! ## Operations -/

/-- No task is spawned under a name that the request has a task under. -/
def NoTaskReplaced (ops : List RequestOp) : Prop :=
  ∀ a name task b, ops = a ++ .spawned name task :: b → registryAfter (fun _ => none) a name = none

/-- The events of one request, in which its operations are told; the number of a task is its place among the tasks. -/
inductive Recounts (tasks : List AsyncTask) : List TaskEvent → List RequestOp → Prop
  | nil : Recounts tasks [] []
  | spawned {l : List TaskEvent} {ops : List RequestOp} {number : ℕ} {task : AsyncTask} (h : Recounts tasks l ops) (name : String)
      (hnumber : tasks[number]? = some task) : Recounts tasks (l ++ [.spawned 0 name number]) (ops ++ [.spawned name task])
  | joined {l b : List TaskEvent} {ops : List RequestOp} {results results' : Object} (h : Recounts tasks l ops) (names : List String)
      (hb : ∀ e ∈ b, ∀ request, e.Aside request) (hresults : ∀ n, IndexMap.get results' n = IndexMap.get results n) :
      Recounts tasks (l ++ .joins 0 names :: (b ++ [.joined 0 results'])) (ops ++ [.joined names results])

/-- Further tasks change nothing. -/
theorem Recounts.snoc {tasks : List AsyncTask} {l : List TaskEvent} {ops : List RequestOp} (h : Recounts tasks l ops) (task : AsyncTask) :
    Recounts (tasks ++ [task]) l ops := by
  induction h with
  | nil => exact .nil
  | spawned _ name hnumber ih =>
    obtain ⟨hlt, -⟩ := List.getElem?_eq_some_iff.mp hnumber
    exact ih.spawned name ((List.getElem?_append_left hlt).trans hnumber)
  | joined _ names hb hresults ih => exact ih.joined names hb hresults

/-- The system after a history in which one request performs operations: its registry is the one that the operations lead to, its tasks
have yet to end, and those that have ended did so with outcomes of theirs. -/
structure Performs (env : ExecutionEnv σ) (ops : List RequestOp) (tasks : List AsyncTask) (l : List TaskEvent) (s : TaskSystem) :
    Prop where
  history : TaskHistory l s
  recounts : Recounts tasks l ops
  idle : s.joining 0 = none
  numbered : s.spawned = tasks.length
  registry : ∀ n, (s.registry 0 n).bind (tasks[·]?) = registryAfter (fun _ => none) ops n
  running : ∀ n t, s.registry 0 n = some t → t < s.spawned ∧ s.outcomes t = none
  apart : ∀ n n' t, s.registry 0 n = some t → s.registry 0 n' = some t → n = n'
  outcomes : ∀ t v, s.outcomes t = some v → ∃ task, tasks[t]? = some task ∧ TaskOutcome env task v
  lost : NoTaskReplaced ops → NoTaskLost l

/-- A run that has done nothing performs the empty history. -/
theorem performs_nil (env : ExecutionEnv σ) : Performs env [] [] [] .start where
  history := .start
  recounts := .nil
  idle := rfl
  numbered := rfl
  registry _ := rfl
  running := nofun
  apart := nofun
  outcomes := nofun
  lost _ := by simp [NoTaskLost]

/-- What is registered is a task. -/
theorem Performs.registered {ops : List RequestOp} {tasks : List AsyncTask} {l : List TaskEvent} {s : TaskSystem}
    (h : Performs env ops tasks l s) {n : String} {t : ℕ} (hn : s.registry 0 n = some t) :
    ∃ task, tasks[t]? = some task ∧ registryAfter (fun _ => none) ops n = some task := by
  have hlt : t < tasks.length := h.numbered ▸ (h.running n t hn).1
  have htask : tasks[t]? = some tasks[t] := List.getElem?_eq_getElem hlt
  have hreg := h.registry n
  rw [hn, Option.bind_some, htask] at hreg
  exact ⟨_, htask, hreg.symm⟩

/-- A name without a task has none in the machine. -/
theorem Performs.registry_none {ops : List RequestOp} {tasks : List AsyncTask} {l : List TaskEvent} {s : TaskSystem}
    (h : Performs env ops tasks l s) {n : String} (hn : registryAfter (fun _ => none) ops n = none) : s.registry 0 n = none := by
  cases hs : s.registry 0 n with
  | none => rfl
  | some t =>
    obtain ⟨task, -, hsome⟩ := h.registered hs
    rw [hn] at hsome
    cases hsome

/-- A beginning without replaced tasks has none. -/
theorem NoTaskReplaced.of_append {a b : List RequestOp} (h : NoTaskReplaced (a ++ b)) : NoTaskReplaced a := by
  rintro a' name task b' rfl
  exact h a' name task (b' ++ b) (by simp)

/-- A history loses no task by an event that is no spawn, or spawns under a name that nothing is under. -/
theorem NoTaskLost.snoc {l : List TaskEvent} {e : TaskEvent} (h : NoTaskLost l)
    (he : ∀ request name task, e = .spawned request name task → held (registryOps request l) name = none) :
    NoTaskLost (l ++ [e]) := by
  intro a request name task b hsplit
  rcases List.eq_nil_or_concat b with rfl | ⟨b, e', rfl⟩
  · obtain ⟨rfl, hlast⟩ := List.append_inj' hsplit rfl
    exact he request name task (List.cons.inj hlast).1
  · rw [List.concat_eq_append, ← List.cons_append, ← List.append_assoc] at hsplit
    obtain ⟨rfl, -⟩ := List.append_inj' hsplit rfl
    exact h a request name task b rfl

/-- Events that spawn nothing lose nothing. -/
theorem NoTaskLost.append {l b : List TaskEvent} (h : NoTaskLost l) (hb : ∀ e ∈ b, ∀ request name task, e ≠ .spawned request name task) :
    NoTaskLost (l ++ b) := by
  induction b using List.reverseRecOn with
  | nil => rwa [List.append_nil]
  | append_singleton b e ih =>
    rw [← List.append_assoc]
    refine (ih fun e' he' => hb e' (List.mem_append_left _ he')).snoc fun request name task he => ?_
    exact absurd he (hb e (List.mem_append_right _ List.mem_cons_self) request name task)

/-- An event that is aside for every request is no spawn. -/
theorem not_spawned_of_aside {e : TaskEvent} (h : ∀ request, e.Aside request) (request : ℕ) (name : String) (task : ℕ) :
    e ≠ .spawned request name task := by
  rintro rfl
  have hnone := (h request).2
  simp [TaskEvent.registryOp] at hnone

/-- The system performs a spawn: the task gets the next number. -/
theorem Performs.spawn {ops : List RequestOp} {tasks : List AsyncTask} {l : List TaskEvent} {s : TaskSystem}
    (h : Performs env ops tasks l s) (name : String) (task : AsyncTask) :
    ∃ s', Performs env (ops ++ [.spawned name task]) (tasks ++ [task]) (l ++ [.spawned 0 name tasks.length]) s' := by
  have hnext : (tasks ++ [task])[tasks.length]? = some task := by simp
  have hold : ∀ {t : ℕ}, t < tasks.length → (tasks ++ [task])[t]? = tasks[t]? := fun hlt => List.getElem?_append_left hlt
  obtain ⟨s', hstep, hregistry, hspawned, hjoining, houtcomes⟩ : ∃ s', TaskHistory (l ++ [.spawned 0 name tasks.length]) s' ∧
      s'.registry 0 = Function.update (s.registry 0) name (some tasks.length) ∧ s'.spawned = tasks.length + 1 ∧
      s'.joining = s.joining ∧ s'.outcomes = s.outcomes := by
    have hstep := h.history.step (@TaskStep.spawn s 0 name h.idle)
    rw [h.numbered] at hstep
    exact ⟨_, hstep, by simp, rfl, rfl, rfl⟩
  -- what is registered is the new task under its name, or an old one under another
  have hcases : ∀ {n : String} {t : ℕ}, s'.registry 0 n = some t →
      n = name ∧ t = tasks.length ∨ n ≠ name ∧ s.registry 0 n = some t ∧ t < tasks.length := by
    intro n t hn
    rw [hregistry] at hn
    by_cases he : n = name
    · subst he
      rw [Function.update_self] at hn
      exact Or.inl ⟨rfl, (Option.some.inj hn).symm⟩
    · rw [Function.update_of_ne he] at hn
      exact Or.inr ⟨he, hn, h.numbered ▸ (h.running n t hn).1⟩
  refine ⟨s', ⟨hstep, (h.recounts.snoc task).spawned name hnext, ?_, ?_, fun n => ?_, fun n t hn => ?_, fun n n' t hn hn' => ?_,
    fun t v hv => ?_, fun hlost => ?_⟩⟩
  · rw [hjoining]
    exact h.idle
  · rw [hspawned, List.length_append, List.length_singleton]
  · rw [registryAfter_spawned, hregistry]
    by_cases he : n = name
    · subst he
      rw [Function.update_self, if_pos rfl]
      exact hnext
    · rw [Function.update_of_ne he, if_neg he, ← h.registry]
      cases hn : s.registry 0 n with
      | none => rfl
      | some t => exact hold (h.numbered ▸ (h.running n t hn).1)
  · rw [hspawned, houtcomes]
    rcases hcases hn with ⟨-, rfl⟩ | ⟨-, hn, hlt⟩
    · refine ⟨Nat.lt_succ_self _, ?_⟩
      -- a task that has ended has a number
      cases hv : s.outcomes tasks.length with
      | none => rfl
      | some v =>
        obtain ⟨task, htask, -⟩ := h.outcomes _ v hv
        simp at htask
    · exact ⟨Nat.lt_succ_of_lt hlt, (h.running n t hn).2⟩
  · rcases hcases hn with ⟨rfl, rfl⟩ | ⟨-, hn, hlt⟩
    · rcases hcases hn' with ⟨rfl, -⟩ | ⟨-, -, hlt⟩
      · rfl
      · exact absurd hlt (Nat.lt_irrefl _)
    · rcases hcases hn' with ⟨-, rfl⟩ | ⟨-, hn', -⟩
      · exact absurd hlt (Nat.lt_irrefl _)
      · exact h.apart n n' t hn hn'
  · rw [houtcomes] at hv
    obtain ⟨task', htask, hout⟩ := h.outcomes t v hv
    obtain ⟨hlt, -⟩ := List.getElem?_eq_some_iff.mp htask
    exact ⟨task', (hold hlt).trans htask, hout⟩
  · refine (h.lost hlost.of_append).snoc fun request n t he => ?_
    cases he
    rw [← (historyOk h.history).idle 0 h.idle]
    exact h.registry_none (hlost ops name task [] rfl)

/-- A task that is registered under a name of a join that delivers has a result, its outcome. -/
theorem Performs.delivered {ops : List RequestOp} {tasks : List AsyncTask} {l : List TaskEvent} {s : TaskSystem} {names : List String}
    {results : Object} (h : Performs env ops tasks l s) (hdelivers : Delivers env (registryAfter (fun _ => none) ops) names results)
    {n : String} {t : ℕ} (hn : n ∈ names) (ht : s.registry 0 n = some t) :
    ∃ task v, tasks[t]? = some task ∧ IndexMap.get results n = some v ∧ TaskOutcome env task v := by
  obtain ⟨task, htask, hreg⟩ := h.registered ht
  rcases hdelivers n with ⟨task', v, -, hsome, hget, hout⟩ | ⟨-, hno | hno⟩
  · rw [hreg] at hsome
    cases hsome
    exact ⟨task, v, htask, hget, hout⟩
  · exact absurd hn hno
  · rw [hreg] at hno
    cases hno

/-- A join that gives every task its value of the results has these results. -/
theorem Performs.results_eq {ops : List RequestOp} {tasks : List AsyncTask} {l b : List TaskEvent} {s s₀ s₁ : TaskSystem}
    {names : List String} {results results' : Object} (h : Performs env ops tasks l s)
    (hdelivers : Delivers env (registryAfter (fun _ => none) ops) names results) (hregistry : s₀.registry = s.registry)
    (hawaits : AwaitsAll (IndexMap.get results) names s₀ [] b s₁ results') (n : String) :
    IndexMap.get results' n = IndexMap.get results n := by
  rw [hawaits.results, hregistry]
  rcases hdelivers n with ⟨task, v, hin, hsome, -, -⟩ | ⟨hnone, hno⟩
  · have hheld : s.registry 0 n ≠ none := by
      intro hnone
      have hreg := h.registry n
      rw [hnone, hsome] at hreg
      cases hreg
    rw [if_pos ⟨hin, hheld⟩]
  · rw [hnone, if_neg]
    · rfl
    · rintro ⟨hin, hheld⟩
      rcases hno with hno | hno
      · exact hno hin
      · exact hheld (h.registry_none hno)

/-- The system performs a join: it awaits the tasks under the names, each of which ends with the outcome that the join delivers. -/
theorem Performs.join {ops : List RequestOp} {tasks : List AsyncTask} {l : List TaskEvent} {s : TaskSystem}
    (h : Performs env ops tasks l s) {names : List String} {results : Object}
    (hdelivers : Delivers env (registryAfter (fun _ => none) ops) names results) :
    ∃ b results' s', Performs env (ops ++ [.joined names results]) tasks (l ++ .joins 0 names :: (b ++ [.joined 0 results'])) s' := by
  obtain ⟨s₀, hbegin, hjoining₀, hregistry₀, houtcomes₀, hspawned₀⟩ := join_begin h.history h.idle names
  have hrun : TasksRun s₀ := by
    refine ⟨?_, ?_⟩
    · rw [hregistry₀, houtcomes₀, hspawned₀]
      exact h.running
    · rw [hregistry₀]
      exact h.apart
  obtain ⟨b, s₁, results', hhistory, hawaits⟩ := by
    refine join_loop hbegin hjoining₀ hrun fun n hn t ht => (?_ : ∃ v, IndexMap.get results n = some v)
    rw [hregistry₀] at ht
    obtain ⟨task, v, -, hget, -⟩ := h.delivered hdelivers hn ht
    exact ⟨v, hget⟩
  obtain ⟨s', hend, hidle, hregistry', houtcomes', hspawned'⟩ := join_end hhistory hawaits.joining
  have hregistry : ∀ n, s'.registry 0 n = if n ∈ names then none else s.registry 0 n := by
    rw [hregistry', ← hregistry₀]
    exact hawaits.registry
  have hspawned : s'.spawned = s.spawned := hspawned'.trans (hawaits.spawned.trans hspawned₀)
  -- what is still registered was so before
  have hleft : ∀ {n : String} {t : ℕ}, s'.registry 0 n = some t → s.registry 0 n = some t := by
    intro n t hn
    rw [hregistry, Option.ite_none_left_eq_some] at hn
    exact hn.2
  have hsplit : (l ++ [.joins 0 names] ++ b) ++ [.joined 0 results'] = l ++ .joins 0 names :: (b ++ [.joined 0 results']) := by simp
  refine ⟨b, results', s', ⟨hsplit ▸ hend, h.recounts.joined names hawaits.aside (h.results_eq hdelivers hregistry₀ hawaits), hidle,
    hspawned.trans h.numbered, fun n => ?_, fun n t hn => ?_, fun n n' t hn hn' => h.apart n n' t (hleft hn) (hleft hn'),
    fun t v hv => ?_, fun hlost => ?_⟩⟩
  · rw [registryAfter_joined, hregistry]
    by_cases hin : n ∈ names
    · simp [hin]
    · rw [if_neg hin, if_neg hin]
      exact h.registry n
  · rw [hspawned, houtcomes']
    refine ⟨(h.running n t (hleft hn)).1, hawaits.running n t ?_⟩
    rw [← hregistry']
    exact hn
  · rw [houtcomes'] at hv
    rcases hawaits.outcomes t v hv with hold | ⟨n, hn, ht, hget⟩
    · rw [houtcomes₀] at hold
      exact h.outcomes t v hold
    · rw [hregistry₀] at ht
      obtain ⟨task, v', htask, hget', hout⟩ := h.delivered hdelivers hn ht
      rw [hget] at hget'
      cases hget'
      exact ⟨task, htask, hout⟩
  · refine (h.lost hlost.of_append).append fun e he request name task => ?_
    rcases List.mem_cons.mp he with rfl | he
    · nofun
    · rcases List.mem_append.mp he with he | he
      · exact not_spawned_of_aside (hawaits.aside e he) request name task
      · obtain rfl := List.mem_singleton.mp he
        nofun

/-- Operations whose joins deliver are performed by a history. -/
theorem exists_performs {ops : List RequestOp}
    (h : ∀ a names results b, ops = a ++ .joined names results :: b → Delivers env (registryAfter (fun _ => none) a) names results) :
    ∃ tasks l s, Performs env ops tasks l s := by
  induction ops using List.reverseRecOn with
  | nil => exact ⟨[], [], .start, performs_nil env⟩
  | append_singleton ops op ih =>
    obtain ⟨tasks, l, s, hperforms⟩ := ih fun a names results b he => h a names results (b ++ [op]) (by simp [he])
    cases op with
    | spawned name task =>
      obtain ⟨s', hs'⟩ := hperforms.spawn name task
      exact ⟨_, _, s', hs'⟩
    | joined names results =>
      obtain ⟨b, results', s', hs'⟩ := hperforms.join (h ops names results [] rfl)
      exact ⟨tasks, _, s', hs'⟩

/-- What a run does to the tasks of a new request is performed by a history. -/
theorem Conducts.performs {w w' : World σ} {l : List Event} (h : Conducts env w l w') (hempty : w.reqCtx.asyncRegistry = fun _ => none) :
    ∃ tasks history s, Performs env (requestOps l) tasks history s := by
  refine exists_performs fun a names results b he => ?_
  rw [← hempty]
  exact h.2 a names results b he

end WebPipe
