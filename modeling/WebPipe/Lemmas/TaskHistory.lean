import WebPipe.Executor.Tasks

/-!
# Histories of tasks

What a history says of the system that it led to: the registry of a request is a mailbox, into which a spawn puts a handle and from
which a join takes the names that it is begun with; and a join under way has the outcomes of the tasks that it has looked up. So every
task is delivered to the first later join of its request that names it, in whatever order tasks end and requests interleave.
-/

namespace WebPipe

open Mailbox

/-! ## Operations -/

/-- The operations of a history in order. -/
theorem registryOps_append (request : ℕ) (a b : List TaskEvent) :
    registryOps request (a ++ b) = registryOps request a ++ registryOps request b :=
  List.filterMap_append

/-- An event that is no operation adds none. -/
theorem registryOps_snoc_none {request : ℕ} {e : TaskEvent} (h : e.registryOp request = none) (l : List TaskEvent) :
    registryOps request (l ++ [e]) = registryOps request l := by
  rw [registryOps_append]
  simp [registryOps, h]

/-- An operation comes last. -/
theorem registryOps_snoc_some {request : ℕ} {e : TaskEvent} {op : Op String ℕ} (h : e.registryOp request = some op)
    (l : List TaskEvent) : registryOps request (l ++ [e]) = registryOps request l ++ [op] := by
  rw [registryOps_append]
  simp [registryOps, h]

/-! ## Joins under way -/

/-- The event is not of the request, or of a join of it that goes on. -/
def TaskEvent.Aside (request : ℕ) (e : TaskEvent) : Prop := ¬ e.Bounds request ∧ e.registryOp request = none

/-- Where a join of a request stands that was begun after a history: what it has looked up is gone from the registry, and it has
the outcomes of exactly these tasks but the one that it waits for. -/
structure JoinOk (s : TaskSystem) (request : ℕ) (before : String → Option ℕ) (looked : List String) (J : JoinProgress) : Prop where
  registry : ∀ n, s.registry request n = if n ∈ looked then none else before n
  awaited : ∀ n t, J.awaited = some (n, t) → n ∈ looked ∧ before n = some t ∧ IndexMap.get J.results n = none
  delivered : ∀ n t, n ∈ looked → (∀ t', J.awaited ≠ some (n, t')) → before n = some t →
    ∃ v, s.outcomes t = some v ∧ IndexMap.get J.results n = some v
  only : ∀ n v, IndexMap.get J.results n = some v →
    n ∈ looked ∧ (∀ t', J.awaited ≠ some (n, t')) ∧ ∃ t, before n = some t ∧ s.outcomes t = some v

/-- What a history says of the system that it led to. -/
structure HistoryOk (l : List TaskEvent) (s : TaskSystem) : Prop where
  outcomes : ∀ t v, s.outcomes t = some v ↔ .completed t v ∈ l
  idle : ∀ request, s.joining request = none → s.registry request = held (registryOps request l)
  joining : ∀ request J, s.joining request = some J → ∃ a names b looked, l = a ++ .joins request names :: b ∧
    (∀ e ∈ b, e.Aside request) ∧ names = looked ++ J.rest ∧ JoinOk s request (held (registryOps request a)) looked J

/-- What a join waits for and has does not change when other tasks end. -/
theorem JoinOk.complete {s : TaskSystem} {request : ℕ} {before : String → Option ℕ} {looked : List String} {J : JoinProgress}
    (h : JoinOk s request before looked J) {task : ℕ} (hrun : s.outcomes task = none) (outcome : Value) :
    JoinOk { s with outcomes := Function.update s.outcomes task (some outcome) } request before looked J := by
  have hkeep : ∀ {t : ℕ} {v : Value}, s.outcomes t = some v → Function.update s.outcomes task (some outcome) t = some v := by
    intro t v ht
    have hne : t ≠ task := by
      rintro rfl
      rw [hrun] at ht
      cases ht
    rw [Function.update_of_ne hne, ht]
  refine ⟨h.registry, h.awaited, fun n t hn hno hb => ?_, fun n v hv => ?_⟩
  · obtain ⟨v, hv, hget⟩ := h.delivered n t hn hno hb
    exact ⟨v, hkeep hv, hget⟩
  · obtain ⟨hn, hno, t, hb, ht⟩ := h.only n v hv
    exact ⟨hn, hno, t, hb, hkeep ht⟩

/-- A join sees only the registry of its request and the outcomes. -/
theorem JoinOk.congr {s s' : TaskSystem} {request : ℕ} {before : String → Option ℕ} {looked : List String} {J : JoinProgress}
    (h : JoinOk s request before looked J) (hregistry : s'.registry request = s.registry request)
    (houtcomes : s'.outcomes = s.outcomes) : JoinOk s' request before looked J := by
  refine ⟨fun n => ?_, h.awaited, fun n t => ?_, fun n v => ?_⟩
  · rw [hregistry]
    exact h.registry n
  · rw [houtcomes]
    exact h.delivered n t
  · rw [houtcomes]
    exact h.only n v

/-- A join that begins has looked at nothing. -/
theorem JoinOk.begin {s : TaskSystem} {request : ℕ} {before : String → Option ℕ} (h : s.registry request = before) (names : List String) :
    JoinOk s request before [] { rest := names, awaited := none, results := [] } :=
  ⟨fun n => by rw [h, if_neg List.not_mem_nil], nofun, nofun, nofun⟩

/-- A name without a task is passed over. -/
theorem JoinOk.pass {s : TaskSystem} {request : ℕ} {before : String → Option ℕ} {looked rest : List String} {name : String}
    {results : Object} (h : JoinOk s request before looked { rest := name :: rest, awaited := none, results := results })
    (hno : s.registry request name = none) :
    JoinOk s request before (looked ++ [name]) { rest := rest, awaited := none, results := results } := by
  have hgone : ∀ t, before name = some t → name ∈ looked := by
    intro t ht
    by_contra hout
    have hreg := h.registry name
    rw [if_neg hout, hno, ht] at hreg
    cases hreg
  refine ⟨fun n => ?_, nofun, fun n t hn _ hb => ?_, fun n v hv => ?_⟩
  · rw [h.registry n]
    by_cases hn : n = name
    · subst hn
      rw [if_pos (List.mem_append_right _ List.mem_cons_self), ← h.registry n, hno]
    · simp [hn]
  · refine h.delivered n t ?_ nofun hb
    rcases List.mem_append.mp hn with hn | hn
    · exact hn
    · obtain rfl := List.mem_singleton.mp hn
      exact hgone t hb
  · obtain ⟨hn, -, hv⟩ := h.only n v hv
    exact ⟨List.mem_append_left _ hn, nofun, hv⟩

/-- A task is taken out of the registry and awaited. -/
theorem JoinOk.take {s : TaskSystem} {request : ℕ} {before : String → Option ℕ} {looked rest : List String} {name : String}
    {results : Object} {task : ℕ} (h : JoinOk s request before looked { rest := name :: rest, awaited := none, results := results })
    (hsome : s.registry request name = some task) {joining : ℕ → Option JoinProgress} :
    JoinOk
      { s with
        registry := Function.update s.registry request (Function.update (s.registry request) name none), joining := joining }
      request before (looked ++ [name]) { rest := rest, awaited := some (name, task), results := results } := by
  have hreg := h.registry name
  have hout : name ∉ looked := by
    intro hin
    rw [if_pos hin, hsome] at hreg
    cases hreg
  have hbefore : before name = some task := by
    rw [if_neg hout, hsome] at hreg
    exact hreg.symm
  refine ⟨fun n => ?_, ?_, fun n t hn hno hb => ?_, fun n v hv => ?_⟩
  · dsimp only
    rw [Function.update_self]
    by_cases hn : n = name
    · subst hn
      rw [Function.update_self, if_pos (List.mem_append_right _ List.mem_cons_self)]
    · rw [Function.update_of_ne hn, h.registry n]
      simp [hn]
  · intro n t he
    cases he
    refine ⟨List.mem_append_right _ List.mem_cons_self, hbefore, ?_⟩
    by_contra hget
    obtain ⟨v, hv⟩ := Option.ne_none_iff_exists'.mp hget
    exact hout (h.only name v hv).1
  · have hne : n ≠ name := fun e => hno task (by rw [e])
    refine h.delivered n t ?_ nofun hb
    exact (List.mem_append.mp hn).resolve_right fun hin => hne (List.mem_singleton.mp hin)
  · obtain ⟨hn, -, hv⟩ := h.only n v hv
    refine ⟨List.mem_append_left _ hn, fun t' he => ?_, hv⟩
    cases he
    exact hout hn

/-- The outcome of the awaited task is put under its name. -/
theorem JoinOk.deliver {s : TaskSystem} {request : ℕ} {before : String → Option ℕ} {looked rest : List String} {name : String}
    {results : Object} {task : ℕ} {outcome : Value}
    (h : JoinOk s request before looked { rest := rest, awaited := some (name, task), results := results })
    (hdone : s.outcomes task = some outcome) :
    JoinOk s request before looked { rest := rest, awaited := none, results := IndexMap.insert results name outcome } := by
  obtain ⟨hin, hbefore, -⟩ := h.awaited name task rfl
  have hother : ∀ {n : String}, n ≠ name → ∀ t', some (name, task) ≠ some (n, t') := by
    intro n hn t' he
    cases he
    exact hn rfl
  refine ⟨h.registry, nofun, fun n t hn _ hb => ?_, fun n v hv => ?_⟩
  · by_cases hname : n = name
    · subst hname
      obtain rfl : task = t := Option.some.inj (hbefore.symm.trans hb)
      exact ⟨outcome, hdone, IndexMap.get_insert_self _ _ _⟩
    · obtain ⟨v, hv, hget⟩ := h.delivered n t hn (hother hname) hb
      exact ⟨v, hv, (IndexMap.get_insert_of_ne _ _ hname).trans hget⟩
  · by_cases hname : n = name
    · subst hname
      dsimp only at hv
      rw [IndexMap.get_insert_self] at hv
      exact ⟨hin, nofun, task, hbefore, Option.some.inj hv ▸ hdone⟩
    · obtain ⟨hn, -, ht⟩ := h.only n v ((IndexMap.get_insert_of_ne _ _ hname).symm.trans hv)
      exact ⟨hn, nofun, ht⟩

/-! ## What a history says of its system -/

/-- Where a join of a request was begun, and where it stands. -/
def JoinSince (l : List TaskEvent) (s : TaskSystem) (request : ℕ) (J : JoinProgress) : Prop :=
  ∃ a names b looked, l = a ++ .joins request names :: b ∧ (∀ e ∈ b, e.Aside request) ∧ names = looked ++ J.rest ∧
    JoinOk s request (held (registryOps request a)) looked J

/-- What another request does leaves a join as it is. -/
theorem joinSince_snoc {l : List TaskEvent} {s s' : TaskSystem} {request : ℕ} {J J' : JoinProgress} {e : TaskEvent}
    (h : JoinSince l s request J) (he : e.Aside request)
    (hok : ∀ before looked, JoinOk s request before looked J →
      ∃ looked', looked ++ J.rest = looked' ++ J'.rest ∧ JoinOk s' request before looked' J') :
    JoinSince (l ++ [e]) s' request J' := by
  obtain ⟨a, names, b, looked, rfl, hb, rfl, hjoin⟩ := h
  obtain ⟨looked', hnames, hjoin'⟩ := hok _ _ hjoin
  refine ⟨a, _, b ++ [e], looked', by simp, ?_, hnames, hjoin'⟩
  intro x hx
  rcases List.mem_append.mp hx with hx | hx
  · exact hb x hx
  · exact List.mem_singleton.mp hx ▸ he

/-- A step of one request leaves what the history says of the others. -/
theorem HistoryOk.step_of {l : List TaskEvent} {s s' : TaskSystem} {e : TaskEvent} (h : HistoryOk l s) (request : ℕ)
    (hnot : ∀ t v, e ≠ .completed t v) (houtcomes : s'.outcomes = s.outcomes) (haside : ∀ r, r ≠ request → e.Aside r)
    (hregistry : ∀ r, r ≠ request → s'.registry r = s.registry r) (hjoining : ∀ r, r ≠ request → s'.joining r = s.joining r)
    (hidle : s'.joining request = none → s'.registry request = held (registryOps request (l ++ [e])))
    (hsince : ∀ J, s'.joining request = some J → JoinSince (l ++ [e]) s' request J) : HistoryOk (l ++ [e]) s' := by
  refine ⟨fun t v => ?_, fun r hr => ?_, fun r J hJ => ?_⟩
  · rw [houtcomes, h.outcomes, List.mem_append, List.mem_singleton]
    exact ⟨Or.inl, fun hin => hin.resolve_right fun he => hnot t v he.symm⟩
  · by_cases hrq : r = request
    · subst hrq
      exact hidle hr
    · rw [hregistry r hrq, registryOps_snoc_none (haside r hrq).2]
      exact h.idle r ((hjoining r hrq).symm.trans hr)
  · by_cases hrq : r = request
    · subst hrq
      exact hsince J hJ
    · exact joinSince_snoc (h.joining r J ((hjoining r hrq).symm.trans hJ)) (haside r hrq) fun before looked hok =>
        ⟨looked, rfl, hok.congr (hregistry r hrq) houtcomes⟩

/-- An event of one request is aside for every other, and so is the end of a task for all. -/
theorem aside_of_ne {request r : ℕ} (h : r ≠ request) :
    (∀ name task, (TaskEvent.spawned request name task).Aside r) ∧ (∀ names, (TaskEvent.joins request names).Aside r) ∧
      (∀ results, (TaskEvent.joined request results).Aside r) := by
  refine ⟨fun name task => ⟨id, if_neg h.symm⟩, fun names => ⟨fun e => h e.symm, if_neg h.symm⟩, fun results => ⟨fun e => h e.symm, rfl⟩⟩

/-- The history goes on from a step into a join that is under way: nothing else of the request is to be said. -/
theorem HistoryOk.step_joining {l : List TaskEvent} {s s' : TaskSystem} {e : TaskEvent} {J : JoinProgress} (h : HistoryOk l s)
    (request : ℕ) (hnot : ∀ t v, e ≠ .completed t v) (houtcomes : s'.outcomes = s.outcomes) (haside : ∀ r, r ≠ request → e.Aside r)
    (hregistry : ∀ r, r ≠ request → s'.registry r = s.registry r) (hjoining : s'.joining = Function.update s.joining request (some J))
    (hsince : JoinSince (l ++ [e]) s' request J) : HistoryOk (l ++ [e]) s' := by
  have hself : s'.joining request = some J := by
    rw [hjoining, Function.update_self]
  refine h.step_of request hnot houtcomes haside hregistry (fun r hr => ?_) (fun hnone => ?_) fun J' hJ' => ?_
  · rw [hjoining, Function.update_of_ne hr]
  · rw [hself] at hnone
    cases hnone
  · rw [hself] at hJ'
    cases hJ'
    exact hsince

/-- A step of a join that goes on. -/
theorem HistoryOk.step_join {l : List TaskEvent} {s s' : TaskSystem} {e : TaskEvent} {request : ℕ} {J J' : JoinProgress}
    (h : HistoryOk l s) (hJ : s.joining request = some J) (haside : ∀ r, e.Aside r) (hnot : ∀ t v, e ≠ .completed t v)
    (houtcomes : s'.outcomes = s.outcomes) (hregistry : ∀ r, r ≠ request → s'.registry r = s.registry r)
    (hjoining : s'.joining = Function.update s.joining request (some J'))
    (hok : ∀ before looked, JoinOk s request before looked J →
      ∃ looked', looked ++ J.rest = looked' ++ J'.rest ∧ JoinOk s' request before looked' J') : HistoryOk (l ++ [e]) s' :=
  h.step_joining request hnot houtcomes (fun r _ => haside r) hregistry hjoining
    (joinSince_snoc (h.joining request J hJ) (haside request) hok)

/-- A spawn puts its handle into the registry of its request. -/
theorem HistoryOk.spawn {l : List TaskEvent} {s : TaskSystem} {request : ℕ} (h : HistoryOk l s) (name : String)
    (hidle : s.joining request = none) :
    HistoryOk (l ++ [.spawned request name s.spawned])
      { s with
        registry := Function.update s.registry request (Function.update (s.registry request) name (some s.spawned))
        spawned := s.spawned + 1 } := by
  refine h.step_of request nofun rfl (fun r hr => (aside_of_ne hr).1 _ _) (fun r hr => Function.update_of_ne hr _ _)
    (fun _ _ => rfl) (fun _ => ?_) fun J hJ => ?_
  · have hput : (TaskEvent.spawned request name s.spawned).registryOp request = some (.put name s.spawned) := if_pos rfl
    rw [registryOps_snoc_some hput, held_append, ← h.idle request hidle]
    dsimp only
    rw [Function.update_self]
    funext n
    exact Function.update_apply _ _ _ _
  · rw [show s.joining request = some J from hJ] at hidle
    cases hidle

/-- The end of a task changes the outcomes only. -/
theorem HistoryOk.complete {l : List TaskEvent} {s : TaskSystem} {task : ℕ} (h : HistoryOk l s) (hrun : s.outcomes task = none)
    (outcome : Value) :
    HistoryOk (l ++ [.completed task outcome]) { s with outcomes := Function.update s.outcomes task (some outcome) } := by
  have haside : ∀ r, (TaskEvent.completed task outcome).Aside r := fun r => ⟨id, rfl⟩
  refine ⟨fun t v => ?_, fun r hr => ?_, fun r J hJ => ?_⟩
  · rw [List.mem_append, List.mem_singleton, ← h.outcomes]
    dsimp only
    by_cases ht : t = task
    · subst ht
      rw [Function.update_self, hrun]
      simp [eq_comm]
    · rw [Function.update_of_ne ht]
      exact ⟨Or.inl, fun he => he.resolve_right fun he => ht (by cases he; rfl)⟩
  · rw [registryOps_snoc_none (haside r).2]
    exact h.idle r hr
  · exact joinSince_snoc (h.joining r J hJ) (haside r) fun before looked hok => ⟨looked, rfl, hok.complete hrun outcome⟩

/-- A join that has looked up all its names has emptied them: it took them when it began. -/
theorem HistoryOk.endJoin {l : List TaskEvent} {s : TaskSystem} {request : ℕ} {results : Object} (h : HistoryOk l s)
    (hJ : s.joining request = some { rest := [], awaited := none, results := results }) :
    HistoryOk (l ++ [.joined request results]) { s with joining := Function.update s.joining request none } := by
  refine h.step_of request nofun rfl (fun r hr => (aside_of_ne hr).2.2 _) (fun _ _ => rfl) (fun r hr => Function.update_of_ne hr _ _)
    (fun _ => ?_) fun J hJ => ?_
  · obtain ⟨a, names, b, looked, rfl, hb, hnames, hok⟩ := h.joining request _ hJ
    have hnone : registryOps request b = [] := List.filterMap_eq_nil_iff.mpr fun e he => (hb e he).2
    have hops : registryOps request (a ++ .joins request names :: b) = registryOps request a ++ [.take names] := by
      have htake : (TaskEvent.joins request names).registryOp request = some (.take names) := if_pos rfl
      rw [List.append_cons, registryOps_append, registryOps_snoc_some htake, hnone, List.append_nil]
    rw [registryOps_snoc_none rfl, hops, held_append]
    dsimp only at hnames
    rw [List.append_nil] at hnames
    subst hnames
    funext n
    exact hok.registry n
  · dsimp only at hJ
    rw [Function.update_self] at hJ
    cases hJ

/-- Every step of the machine keeps the invariant; the cases are those of the step. -/
theorem historyOk_step {l : List TaskEvent} {s s' : TaskSystem} {e : TaskEvent} (h : HistoryOk l s) (hstep : TaskStep s e s') :
    HistoryOk (l ++ [e]) s' := by
  cases hstep with
  | spawn hidle => exact h.spawn _ hidle
  | complete outcome _ hrun => exact h.complete hrun outcome
  | @join request names hidle =>
    have hok := JoinOk.begin (h.idle request hidle) names
    exact h.step_joining request nofun rfl (fun r hr => (aside_of_ne hr).2.1 _) (fun _ _ => rfl) rfl
      ⟨l, names, [], [], rfl, nofun, rfl, hok.congr rfl rfl⟩
  | @pass request name rest results hJ hno =>
    exact h.step_join hJ (fun _ => ⟨id, rfl⟩) nofun rfl (fun _ _ => rfl) rfl fun before looked hok =>
      ⟨looked ++ [name], by simp, (hok.pass hno).congr rfl rfl⟩
  | @take request name rest results task hJ hsome =>
    exact h.step_join hJ (fun _ => ⟨id, rfl⟩) nofun rfl (fun r hr => Function.update_of_ne hr _ _) rfl fun before looked hok =>
      ⟨looked ++ [name], by simp, hok.take hsome⟩
  | deliver hJ hdone =>
    exact h.step_join hJ (fun _ => ⟨id, rfl⟩) nofun rfl (fun _ _ => rfl) rfl fun before looked hok =>
      ⟨looked, rfl, (hok.deliver hdone).congr rfl rfl⟩
  | endJoin hJ => exact h.endJoin hJ

/-- The invariant holds of every history. -/
theorem historyOk {l : List TaskEvent} {s : TaskSystem} (h : TaskHistory l s) : HistoryOk l s := by
  induction h with
  | start => exact ⟨fun t v => ⟨nofun, nofun⟩, fun _ _ => rfl, nofun⟩
  | step _ hstep ih => exact historyOk_step ih hstep

/-! ## Deliveries -/

/-- An event of a history was a step from what the events before it led to. -/
theorem TaskHistory.at_event {l₁ l₂ : List TaskEvent} {e : TaskEvent} {s : TaskSystem} (h : TaskHistory (l₁ ++ e :: l₂) s) :
    ∃ s₁ s₂, TaskHistory l₁ s₁ ∧ TaskStep s₁ e s₂ := by
  generalize hl : l₁ ++ e :: l₂ = l at h
  induction h generalizing l₂ with
  | start => simp at hl
  | @step l s s' e' hbefore hstep ih =>
    rcases List.eq_nil_or_concat l₂ with rfl | ⟨l₃, e₃, rfl⟩
    · obtain ⟨rfl, he⟩ := List.append_inj' hl rfl
      cases he
      exact ⟨s, s', hbefore, hstep⟩
    · rw [List.concat_eq_append, ← List.cons_append, ← List.append_assoc] at hl
      exact ih (List.append_inj' hl rfl).1

/-- A list splits in one way at the last element with a property. -/
theorem last_split_unique {α : Type} {P : α → Prop} {a a' b b' : List α} {x x' : α} (h : a ++ x :: b = a' ++ x' :: b') (hx : P x)
    (hx' : P x') (hb : ∀ y ∈ b, ¬ P y) (hb' : ∀ y ∈ b', ¬ P y) : a = a' ∧ x = x' ∧ b = b' := by
  rcases List.append_eq_append_iff.mp h with ⟨c, rfl, hc⟩ | ⟨c, rfl, hc⟩
  · cases c with
    | nil =>
      cases hc
      simp
    | cons y c =>
      obtain ⟨-, rfl⟩ := List.cons.inj hc
      exact absurd hx' (hb x' (List.mem_append_right _ List.mem_cons_self))
  · cases c with
    | nil =>
      cases hc
      simp
    | cons y c =>
      obtain ⟨-, rfl⟩ := List.cons.inj hc
      exact absurd hx (hb' x (List.mem_append_right _ List.mem_cons_self))

/-- A join that ended has the outcomes of the tasks that its request had under its names when it began, and nothing else. -/
theorem joined_results {a b c : List TaskEvent} {request : ℕ} {names : List String} {results : Object} {s : TaskSystem}
    (h : TaskHistory (a ++ .joins request names :: (b ++ .joined request results :: c)) s) (hb : ∀ e ∈ b, ¬ e.Bounds request)
    (name : String) (v : Value) :
    IndexMap.get results name = some v ↔
      name ∈ names ∧ ∃ task, held (registryOps request a) name = some task ∧ .completed task v ∈ a ++ b := by
  rw [← List.cons_append, ← List.append_assoc] at h
  obtain ⟨s₁, s₂, hbefore, hstep⟩ := h.at_event
  have hok := historyOk hbefore
  cases hstep with
  | endJoin hJ =>
    obtain ⟨a', names', b', looked, hsplit, hb', hnames, hjoin⟩ := hok.joining request _ hJ
    obtain ⟨rfl, hjoins, rfl⟩ := last_split_unique (P := fun e => e.Bounds request) hsplit rfl rfl hb fun e he => (hb' e he).1
    cases hjoins
    rw [List.append_nil] at hnames
    subst hnames
    have hmem : ∀ t u, s₁.outcomes t = some u ↔ .completed t u ∈ a ++ b := by
      intro t u
      rw [hok.outcomes, List.mem_append, List.mem_cons, List.mem_append]
      simp
    constructor
    · intro hget
      obtain ⟨hin, -, t, ht, hdone⟩ := hjoin.only name v hget
      exact ⟨hin, t, ht, (hmem t v).mp hdone⟩
    · rintro ⟨hin, t, ht, hdone⟩
      obtain ⟨u, hu, hget⟩ := hjoin.delivered name t hin nofun ht
      rw [(hmem t v).mpr hdone] at hu
      cases hu
      exact hget

/-- The events that change a registry. -/
theorem registryOp_eq_some {request : ℕ} {e : TaskEvent} {op : Op String ℕ} (h : e.registryOp request = some op) :
    (∃ name task, e = .spawned request name task ∧ op = .put name task) ∨ ∃ names, e = .joins request names ∧ op = .take names := by
  cases e with
  | spawned r name task =>
    obtain ⟨rfl, hop⟩ := Option.ite_none_right_eq_some.mp h
    exact Or.inl ⟨name, task, rfl, (Option.some.inj hop).symm⟩
  | joins r names =>
    obtain ⟨rfl, hop⟩ := Option.ite_none_right_eq_some.mp h
    exact Or.inr ⟨names, rfl, (Option.some.inj hop).symm⟩
  | _ => cases h

/-- An operation on a registry comes from an event of the history, with the operations before and after it. -/
theorem registryOps_split {request : ℕ} {l : List TaskEvent} {a b : List (Op String ℕ)} {op : Op String ℕ}
    (h : registryOps request l = a ++ op :: b) :
    ∃ l₁ e l₂, l = l₁ ++ e :: l₂ ∧ e.registryOp request = some op ∧ registryOps request l₁ = a ∧ registryOps request l₂ = b := by
  obtain ⟨l₁, l₂, rfl, ha, hrest⟩ := List.filterMap_eq_append_iff.mp h
  obtain ⟨l₃, e, l₄, rfl, hnone, hop, hb⟩ := List.filterMap_eq_cons_iff.mp hrest
  refine ⟨l₁ ++ l₃, e, l₄, by simp, hop, ?_, hb⟩
  have hl₃ : registryOps request l₃ = [] := List.filterMap_eq_nil_iff.mpr hnone
  rw [registryOps_append, hl₃, List.append_nil]
  exact ha

theorem registryOps_cons_some {request : ℕ} {e : TaskEvent} {op : Op String ℕ} (h : e.registryOp request = some op)
    (l : List TaskEvent) : registryOps request (e :: l) = op :: registryOps request l := by
  simp [registryOps, h]

/-- A task was spawned under a name, and no join of the request has named it since. -/
def Outstanding (l : List TaskEvent) (request : ℕ) (name : String) (task : ℕ) : Prop :=
  ∃ a b, l = a ++ .spawned request name task :: b ∧ ∀ names, .joins request names ∈ b → name ∉ names

/-- What a request has under a name, where it never spawns over a task, is the task outstanding under it. -/
theorem held_iff_outstanding {l : List TaskEvent} (hlost : NoTaskLost l) (request : ℕ) (name : String) (task : ℕ) :
    held (registryOps request l) name = some task ↔ Outstanding l request name task := by
  unfold Outstanding
  have hfresh : ∀ a k u b, registryOps request l = a ++ .put k u :: b → held a k = none := by
    intro a k u b he
    obtain ⟨l₁, e, l₂, rfl, hop, rfl, -⟩ := registryOps_split he
    rcases registryOp_eq_some hop with ⟨n, t, rfl, hput⟩ | ⟨names, -, htake⟩
    · cases hput
      exact hlost l₁ request k u l₂ rfl
    · cases htake
  have hspawned : (TaskEvent.spawned request name task).registryOp request = some (.put name task) := if_pos rfl
  rw [held_eq_some_iff_of_fresh hfresh]
  constructor
  · rintro ⟨a, b, he, hb⟩
    obtain ⟨l₁, e, l₂, rfl, hop, -, rfl⟩ := registryOps_split he
    rcases registryOp_eq_some hop with ⟨n, t, rfl, hput⟩ | ⟨names, -, htake⟩
    · cases hput
      refine ⟨l₁, l₂, rfl, fun names hnames => hb names ?_⟩
      exact List.mem_filterMap.mpr ⟨_, hnames, if_pos rfl⟩
    · cases htake
  · rintro ⟨a, b, rfl, hb⟩
    refine ⟨registryOps request a, registryOps request b, ?_, fun names hnames => ?_⟩
    · rw [registryOps_append, registryOps_cons_some hspawned]
    · obtain ⟨e, he, hop⟩ := List.mem_filterMap.mp hnames
      rcases registryOp_eq_some hop with ⟨n, t, -, hput⟩ | ⟨names', rfl, htake⟩
      · cases hput
      · cases htake
        exact hb names he

/-- A beginning of a history without lost tasks has none. -/
theorem NoTaskLost.of_append {a b : List TaskEvent} (h : NoTaskLost (a ++ b)) : NoTaskLost a := by
  rintro a' request name task b' rfl
  exact h a' request name task (b' ++ b) (by simp)

/-- The tasks spawned so far are numbered below the next. -/
theorem TaskHistory.spawned_lt {l : List TaskEvent} {s : TaskSystem} (h : TaskHistory l s) {request : ℕ} {name : String} {task : ℕ}
    (hin : .spawned request name task ∈ l) : task < s.spawned := by
  induction h with
  | start => cases hin
  | @step l s s' e _ hstep ih =>
    rcases List.mem_append.mp hin with hin | hin
    · have hlt := ih hin
      cases hstep with
      | spawn _ => exact Nat.lt_succ_of_lt hlt
      | _ => exact hlt
    · cases List.mem_singleton.mp hin
      cases hstep with
      | spawn _ => exact Nat.lt_succ_self _

/-- The tasks of a history are delivered once: a task is spawned once and ends once, and a join that ended has the outcome of every
task that was outstanding in its request under one of its names when it began, and nothing else. -/
structure DeliveredOnce (l : List TaskEvent) : Prop where
  spawned : ∀ a request name task b, l = a ++ .spawned request name task :: b →
    ∀ request' name', .spawned request' name' task ∉ b
  completed : ∀ task v v', .completed task v ∈ l → .completed task v' ∈ l → v = v'
  joined : ∀ a request names b results c, l = a ++ .joins request names :: (b ++ .joined request results :: c) →
    (∀ e ∈ b, ¬ e.Bounds request) → ∀ name v, IndexMap.get results name = some v ↔
      name ∈ names ∧ ∃ task, Outstanding a request name task ∧ .completed task v ∈ a ++ b

/-- In a history without lost tasks every task is delivered once. -/
theorem deliveredOnce {l : List TaskEvent} {s : TaskSystem} (h : TaskHistory l s) (hlost : NoTaskLost l) : DeliveredOnce l := by
  refine ⟨?_, fun task v v' hv hv' => ?_, ?_⟩
  · rintro a request name task b rfl request' name' hin
    obtain ⟨b₁, b₂, rfl⟩ := List.append_of_mem hin
    rw [← List.cons_append, ← List.append_assoc] at h
    obtain ⟨s₁, s₂, hbefore, hstep⟩ := h.at_event
    cases hstep with
    | spawn _ =>
      have hfirst : TaskEvent.spawned request name s₁.spawned ∈ a ++ .spawned request name s₁.spawned :: b₁ :=
        List.mem_append_right _ List.mem_cons_self
      exact Nat.lt_irrefl _ (hbefore.spawned_lt hfirst)
  · have hok := historyOk h
    have hsome := (hok.outcomes task v).mpr hv
    rw [(hok.outcomes task v').mpr hv'] at hsome
    exact (Option.some.inj hsome).symm
  · rintro a request names b results c rfl hb name v
    have hiff : ∀ task, held (registryOps request a) name = some task ↔ Outstanding a request name task :=
      held_iff_outstanding hlost.of_append request name
    rw [joined_results h hb]
    simp only [hiff]

end WebPipe
