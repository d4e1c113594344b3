import WebPipe.Lemmas.TaskRefinement

/-!
# Every task is delivered once

A task that a request spawned is delivered to the first later join of the request that names it, and to no other: in whatever order
tasks end, and however requests interleave. The registry of a request is a mailbox: a spawn puts a handle there, a join takes the
names that it is begun with. What a run of the executor does to the tasks of its request is one of these histories.
-/

namespace WebPipe

open Mailbox

variable {σ : Type}

/-! ## Runs of the executor -/

/-- A task was spawned under a name by the operations, and no join among them has named it since. -/
def OutstandingTask (ops : List RequestOp) (name : String) (task : AsyncTask) : Prop :=
  ∃ a b, ops = a ++ .spawned name task :: b ∧ ∀ names results, .joined names results ∈ b → name ∉ names

/-- Where the mailbox is used, the request spawned or joined. -/
theorem mailboxOps_split {ops : List RequestOp} {a b : List (Op String AsyncTask)} {op : Op String AsyncTask}
    (h : ops.map RequestOp.mailboxOp = a ++ op :: b) :
    ∃ a' o b', ops = a' ++ o :: b' ∧ o.mailboxOp = op ∧ a'.map RequestOp.mailboxOp = a ∧ b'.map RequestOp.mailboxOp = b := by
  obtain ⟨a', rest, rfl, ha, hrest⟩ := List.map_eq_append_iff.mp h
  obtain ⟨o, b', rfl, ho, hb⟩ := List.map_eq_cons_iff.mp hrest
  exact ⟨a', o, b', rfl, ho, ha, hb⟩

/-- The registry holds the tasks that are outstanding. -/
theorem registryAfter_iff_outstanding {ops : List RequestOp} (hlost : NoTaskReplaced ops) (name : String) (task : AsyncTask) :
    registryAfter (fun _ => none) ops name = some task ↔ OutstandingTask ops name task := by
  have hfresh : ∀ a k u b, ops.map RequestOp.mailboxOp = a ++ .put k u :: b → held a k = none := by
    intro a k u b he
    obtain ⟨a', o, b', rfl, ho, rfl, -⟩ := mailboxOps_split he
    cases o with
    | spawned n t =>
      cases ho
      exact hlost a' k u b' rfl
    | joined names results => cases ho
  unfold OutstandingTask
  change held (ops.map RequestOp.mailboxOp) name = some task ↔ _
  rw [held_eq_some_iff_of_fresh hfresh]
  constructor
  · rintro ⟨a, b, he, hb⟩
    obtain ⟨a', o, b', rfl, ho, -, rfl⟩ := mailboxOps_split he
    cases o with
    | spawned n t =>
      cases ho
      exact ⟨a', b', rfl, fun names results hin => hb names (List.mem_map_of_mem hin)⟩
    | joined names results => cases ho
  · rintro ⟨a, b, rfl, hb⟩
    refine ⟨a.map RequestOp.mailboxOp, b.map RequestOp.mailboxOp, by simp [RequestOp.mailboxOp], fun ks hks => ?_⟩
    obtain ⟨o, ho, htake⟩ := List.mem_map.mp hks
    cases o with
    | spawned n t => cases htake
    | joined names results =>
      cases htake
      exact hb _ results ho

/-- The tasks that a request spawned are delivered once: each join has one outcome of every task that was outstanding under one of
its names, and nothing else. -/
def RequestDelivers (env : ExecutionEnv σ) (ops : List RequestOp) : Prop :=
  ∀ a names results b, ops = a ++ .joined names results :: b →
    (∀ name task, name ∈ names → OutstandingTask a name task →
      ∃ v, IndexMap.get results name = some v ∧ TaskOutcome env task v) ∧
    ∀ name v, IndexMap.get results name = some v →
      name ∈ names ∧ ∃ task, OutstandingTask a name task ∧ TaskOutcome env task v

theorem Conducts.requestDelivers {env : ExecutionEnv σ} {w w' : World σ} {l : List Event} (h : Conducts env w l w')
    (hempty : w.reqCtx.asyncRegistry = fun _ => none) (hlost : NoTaskReplaced (requestOps l)) :
    RequestDelivers env (requestOps l) := by
  intro a names results b he
  have hdelivers := h.2 a names results b he
  have hlost' : NoTaskReplaced a := by
    rintro a' name task b' rfl
    exact hlost a' name task (b' ++ .joined names results :: b) (by simp [he])
  rw [hempty] at hdelivers
  refine ⟨fun name task hin hout => ?_, fun name v hget => ?_⟩
  · have hheld := (registryAfter_iff_outstanding hlost' name task).mpr hout
    rcases hdelivers name with ⟨task', v, -, hsome, hget, hv⟩ | ⟨-, hno | hno⟩
    · rw [hheld] at hsome
      cases hsome
      exact ⟨v, hget, hv⟩
    · exact absurd hin hno
    · rw [hheld] at hno
      cases hno
  · rcases hdelivers name with ⟨task, v', hin, hsome, hget', hv⟩ | ⟨hnone, -⟩
    · rw [hget] at hget'
      cases hget'
      exact ⟨hin, task, (registryAfter_iff_outstanding hlost' name task).mp hsome, hv⟩
    · rw [hget] at hnone
      cases hnone

/-- The operations are those of one request in a history of all tasks in which no task is lost: the number of a task there is its
place among the tasks spawned, and it ends with an outcome of its own. -/
def InHistory (env : ExecutionEnv σ) (ops : List RequestOp) : Prop :=
  ∃ tasks history s, TaskHistory history s ∧ NoTaskLost history ∧ Recounts tasks history ops ∧
    ∀ t v, .completed t v ∈ history → ∃ task, tasks[t]? = some task ∧ TaskOutcome env task v

/-- What a run does to the tasks of its request is one of the histories. -/
theorem Conducts.inHistory {env : ExecutionEnv σ} {w w' : World σ} {l : List Event} (h : Conducts env w l w')
    (hempty : w.reqCtx.asyncRegistry = fun _ => none) (hlost : NoTaskReplaced (requestOps l)) : InHistory env (requestOps l) := by
  obtain ⟨tasks, history, s, hperforms⟩ := h.performs hempty
  refine ⟨tasks, history, s, hperforms.history, hperforms.lost hlost, hperforms.recounts, fun t v hin => ?_⟩
  exact hperforms.outcomes t v (((historyOk hperforms.history).outcomes t v).mpr hin)

/-- Every task is delivered once, to the first later join of its request that names it: in every history of requests and tasks; and in
every run of the executor, of a pipeline or of a task, that starts with no task registered, which does to its tasks what one of these
histories does. -/
theorem tasks_delivered_once (env : ExecutionEnv σ) :
    (∀ l s, TaskHistory l s → NoTaskLost l → DeliveredOnce l) ∧
      (LeavesTasks env →
        (∀ n pipeline input handled w r w' l, executeWithErrorShortCircuit env n pipeline input handled w = some (r, w', l) →
          w.reqCtx.asyncRegistry = (fun _ => none) → NoTaskReplaced (requestOps l) →
            RequestDelivers env (requestOps l) ∧ InHistory env (requestOps l)) ∧
        ∀ n task w r w' l, taskBody env (executeWithErrorShortCircuit env n) task w = some (r, w', l) →
          w.reqCtx.asyncRegistry = (fun _ => none) → NoTaskReplaced (requestOps l) →
            RequestDelivers env (requestOps l) ∧ InHistory env (requestOps l)) := by
  refine ⟨fun l s h hlost => deliveredOnce h hlost, fun hleaves => ⟨?_, ?_⟩⟩
  · intro n pipeline input handled w r w' l h hempty hlost
    have hconducts := conducts_execute hleaves h
    exact ⟨hconducts.requestDelivers hempty hlost, hconducts.inHistory hempty hlost⟩
  · intro n task w r w' l h hempty hlost
    have hconducts := conducts_taskBody hleaves h
    exact ⟨hconducts.requestDelivers hempty hlost, hconducts.inHistory hempty hlost⟩

/-! ## One task -/

/-- A step that works as a task. -/
def workStep (name : String) : PipelineStep :=
  .regular { name := "work", condition := some (.tag { name := "async", negated := false, args := [name] }) }

/-- A join of tasks. -/
def joinOf (names : List String) : PipelineStep := .regular { name := "join", parsedJoinTargets := some names }

/-- The pipeline of a field: its work is a task of the request of the query. -/
def workResolver : Pipeline := { steps := [workStep "a"] }

/-- A middleware that gives its work back, joins, and queries of one field. -/
def workEnv : ExecutionEnv Unit where
  registry name :=
    if name = "work" then some (.stateless .transform fun _ => .ok ({}, .string "done"))
    else if name = "join" then some (.stateless .merge fun call => .ok ({}, call.state))
    else if name = "graphql" then some (.graphql [workResolver] fun call =>
      .resolve (.field "Query.work") workResolver (List.mem_singleton_self _)
        (.object [("context", call.state), ("args", .object [])]) fun result =>
          .done (.ok ({}, .object [("data", .object [("work", result.toOption.getD .null)])])))
    else none

/-- The middleware leaves tasks alone. -/
theorem leavesTasks_workEnv : LeavesTasks workEnv := by
  intro name behavior execute hname call ctx ext
  unfold workEnv at hname
  dsimp only at hname
  split_ifs at hname
  · cases hname
    rfl
  · cases hname
    rfl
  · cases hname

/-- A new request on an empty store. -/
def workWorld : World Unit := .start (.newWithLimits 0 0 0 0 0) ()

/-- The names in an operation. -/
def RequestOp.names : RequestOp → String ⊕ List String
  | .spawned name _ => .inl name
  | .joined names _ => .inr names

/-- A request spawns a task and joins its name twice; the task ends while the join waits for it. -/
def oneTask : List TaskEvent :=
  [.spawned 0 "a" 0, .joins 0 ["a", "a"], .took 0 "a" 0, .completed 0 (.string "done"), .delivered 0 "a" 0, .passed 0 "a",
    .joined 0 [("a", .string "done")]]

/-- The machine can do so. -/
theorem taskHistory_oneTask : ∃ s, TaskHistory oneTask s := by
  have h₁ := TaskHistory.start.step (@TaskStep.spawn _ 0 "a" rfl)
  have h₂ := h₁.step (@TaskStep.join _ 0 ["a", "a"] rfl)
  have h₃ := h₂.step (@TaskStep.take _ 0 "a" ["a"] [] 0 rfl rfl)
  have h₄ := h₃.step (@TaskStep.complete _ 0 (.string "done") Nat.zero_lt_one rfl)
  have h₅ := h₄.step (@TaskStep.deliver _ 0 "a" ["a"] [] 0 (.string "done") rfl rfl)
  have h₆ := h₅.step (@TaskStep.pass _ 0 "a" [] _ rfl rfl)
  exact ⟨_, h₆.step (@TaskStep.endJoin _ 0 _ rfl)⟩

/-- No task is spawned under a name that is taken. -/
theorem noTaskLost_oneTask : NoTaskLost oneTask := by
  intro a request name task b h
  cases a with
  | nil => rfl
  | cons e a =>
    have hmem : TaskEvent.spawned request name task ∈ oneTask.tail := by
      rw [h]
      exact List.mem_append_right a List.mem_cons_self
    simp [oneTask] at hmem

/-- A query whose field spawns a task, and a join of the task. -/
def queryThenJoin : Pipeline := { steps := [.regular { name := "graphql", config := "{ work }" }, joinOf ["a"]] }

/-- The task is delivered once, in the machine and in a run of the executor. -/
theorem tasks_delivered_once_work : DeliveredOnce oneTask ∧
    ∃ r w' l, executeWithErrorShortCircuit workEnv 2 queryThenJoin (.object []) none workWorld = some (r, w', l) ∧
      (requestOps l).map RequestOp.names = [.inl "a", .inr ["a"]] ∧ RequestDelivers workEnv (requestOps l) ∧
      InHistory workEnv (requestOps l) := by
  obtain ⟨s, hs⟩ := taskHistory_oneTask
  have hall := tasks_delivered_once workEnv
  refine ⟨hall.1 _ s hs noTaskLost_oneTask, ?_⟩
  have hnames : (executeWithErrorShortCircuit workEnv 2 queryThenJoin (.object []) none workWorld).map
      (fun p => (requestOps p.2.2).map RequestOp.names) = some [.inl "a", .inr ["a"]] := by decide +kernel
  obtain ⟨⟨r, w', l⟩, hrun, hops⟩ := Option.map_eq_some_iff.mp hnames
  refine ⟨r, w', l, hrun, hops, (hall.2 leavesTasks_workEnv).1 _ _ _ _ _ _ _ _ hrun rfl ?_⟩
  intro a name task b h
  cases a with
  | nil => rfl
  | cons op a =>
    have hmem : Sum.inl name ∈ ([.inr ["a"]] : List (String ⊕ List String)) := by
      rw [h] at hops
      simp only [List.cons_append, List.map_cons, List.map_append] at hops
      rw [← (List.cons.inj hops).2]
      exact List.mem_append_right _ List.mem_cons_self
    simp at hmem

end WebPipe
