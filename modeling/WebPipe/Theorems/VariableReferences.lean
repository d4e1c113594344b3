import WebPipe.Lemmas.References

/-!
# References to variables

A thread counts its references up from the first of its range, and nothing stops it at the last: `references_distinct_iff` says that the
references of a pause are distinct, in range and lead back to their values exactly as long as every request leaves the counter below
`varRefStride`.
-/

namespace WebPipe

open VarServer

/-! ## What is promised -/

/-- A request for a reference lists the parts of a value. -/
def Lists (server : VarServer) (varRef : Nat) (v : Value) : Prop :=
  ((server.handleVariables varRef).1.map fun x => (x.name, x.shown)) = (children v).map fun c => (c.name, c.value)

/-- The references handed out in the present pause of every thread are distinct; each lies in the range of the thread, is not the root
reference, and lists the parts of the value it was made for. -/
def DistinctReferences (s : VarSession) : Prop :=
  ∀ t p, s.server.pausedThreads t = some p →
    ((s.handed t).map Prod.fst).Nodup ∧
      ∀ e ∈ s.handed t, t * varRefStride ≤ e.1 ∧ e.1 < (t + 1) * varRefStride ∧ e.1 ≠ t * varRefStride + 1 ∧ Lists s.server e.1 e.2

section Session

variable (parseJson : String → Option Value) (evaluate : String → Value → Except String Value)

/-- How many references a request asks for. -/
def nestedAsked (server : VarServer) : VarRequest → Nat
  | .listVariables varRef =>
    let shown :=
      if varRef % varRefStride = 1 then (server.pausedThreads (varRef / varRefStride)).map PausedVars.state
      else server.variableCache varRef
    match shown with
    | some v => (children v).countP fun c => isComplex c.value
    | none => 0
  | .setVariable varRef name text =>
    if (server.changedState varRef name (newValue parseJson text)).isSome && isComplex (newValue parseJson text) then 1 else 0
  | .evaluate frameId expression =>
    match server.pausedThreads (frameThread frameId) with
    | some p =>
      match evaluate (jqExpression expression) p.state with
      | .ok v => if isComplex v then 1 else 0
      | .error _ => 0
    | none => 0
  | .scopes _ | .resume _ => 0

/-- The references that a request asks for fit into the range of its thread. -/
def HasRoom (s : VarSession) : VarMove → Prop
  | .pause _ _ => True
  | .request r =>
    0 < nestedAsked parseJson evaluate s.server r →
      ∀ p, s.server.pausedThreads r.thread = some p → p.varRefIndex + nestedAsked parseJson evaluate s.server r < varRefStride

/-! ## The numbers -/

variable {parseJson evaluate} {server server' : VarServer} {r : VarRequest} {response : VarResponse}

/-- A request is about one thread. -/
theorem Answers.others (h : Answers parseJson server r response server') {t : Nat} (ht : t ≠ r.thread) :
    server'.pausedThreads t = server.pausedThreads t := by
  cases h with
  | quiet hpaused => rw [hpaused]
  | handsOut h => exact h.others t ht
  | changed hchanged h => exact (h.others t ht).trans (Function.update_of_ne ht ..)
  | resumed u => exact Function.update_of_ne ht ..

/-- A state that can be changed is that of a paused thread. -/
theorem pausedThreads_of_changedState {varRef : Nat} {name : String} {new : Value} {p : PausedVars} {state : Value}
    (h : server.changedState varRef name new = some (p, state)) : server.pausedThreads (varRef / varRefStride) = some p := by
  simp only [changedState, Option.bind_eq_some_iff, Option.map_eq_some_iff, Prod.mk.injEq] at h
  obtain ⟨_, -, q, hq, _, -, rfl, -⟩ := h
  exact hq

/-- A thread that is still paused was paused before, and has counted up by the references handed out. -/
theorem Answers.counts (h : Answers parseJson server r response server') {p' : PausedVars}
    (hp' : server'.pausedThreads r.thread = some p') :
    ∃ p, server.pausedThreads r.thread = some p ∧ p'.varRefIndex = p.varRefIndex + response.handedOut.length ∧
      response.handedOut.map Prod.fst = List.range' (r.thread * varRefStride + p.varRefIndex + 1) response.handedOut.length ∧
      ∀ l, (r.kept response l).map Prod.fst = l.map Prod.fst := by
  cases h with
  | quiet hpaused hcache hnone hkept =>
    rw [hpaused] at hp'
    exact ⟨p', hp', by simp [hnone], by simp [hnone], fun l => by rw [hkept]⟩
  | @handsOut r response server' p h hkept =>
    rw [h.counted] at hp'
    cases hp'
    exact ⟨p, h.paused, rfl, h.refs, fun l => by rw [hkept]⟩
  | @changed varRef ref name text p state server' hchanged h =>
    have hcounted : server'.pausedThreads (varRef / varRefStride) = _ := h.counted
    rw [VarRequest.thread] at hp'
    rw [hp'] at hcounted
    cases hcounted
    refine ⟨p, pausedThreads_of_changedState hchanged, rfl, h.refs, fun l => ?_⟩
    rw [VarRequest.kept, List.map_map]
    exact List.map_congr_left fun e _ => by by_cases he : e.1 = varRef <;> simp [he]
  | resumed u => simp [VarRequest.thread, resume] at hp'

/-- The references handed out in a pause, the root reference left out, are counted up from the first. -/
def Numbered (s : VarSession) : Prop :=
  ∀ t p, s.server.pausedThreads t = some p →
    p.varRefIndex = (s.handed t).length + 1 ∧ (s.handed t).map Prod.fst = List.range' (t * varRefStride + 2) (s.handed t).length

/-- Every move keeps the count of references. -/
theorem Numbered.step {s : VarSession} (h : Numbered s) (move : VarMove) : Numbered (s.step parseJson evaluate move) := by
  intro t p' hp'
  cases move with
  | pause u state =>
    cases hu : s.server.pausedThreads u with
    | some _ =>
      simp only [VarSession.step, hu] at hp' ⊢
      exact h t p' hp'
    | none =>
      simp only [VarSession.step, hu, VarServer.pause] at hp' ⊢
      by_cases ht : t = u
      · subst ht
        rw [Function.update_self, Option.some.injEq] at hp'
        subst hp'
        simp
      · rw [Function.update_of_ne ht] at hp' ⊢
        exact h t p' hp'
  | request r =>
    have ha := answers parseJson evaluate s.server r
    simp only [VarSession.step] at hp' ⊢
    by_cases ht : t = r.thread
    · subst ht
      rw [Function.update_self]
      obtain ⟨p, hp, hcount, hnew, hkept⟩ := ha.counts hp'
      obtain ⟨hindex, hold⟩ := h r.thread p hp
      have hlength : (r.kept (s.server.handle parseJson evaluate r).1 (s.handed r.thread)).length = (s.handed r.thread).length := by
        simpa using congrArg List.length (hkept (s.handed r.thread))
      rw [List.length_append, List.map_append, hkept, hlength, hold, hnew]
      refine ⟨by omega, ?_⟩
      have hstart : r.thread * varRefStride + p.varRefIndex + 1 =
          r.thread * varRefStride + 2 + 1 * (s.handed r.thread).length := by omega
      rw [hstart, List.range'_append]
    · rw [Function.update_of_ne ht]
      exact h t p' (ha.others ht ▸ hp')

/-- A listing has a reference for each part that has parts itself. -/
theorem length_listing {parentPtr : List Char} {vars : List DapVariable} {cs : List Child}
    (h : List.Forall₂ (Shows server parentPtr) vars cs) :
    (VarResponse.listed vars).handedOut.length = cs.countP fun c => isComplex c.value := by
  induction h with
  | nil => rfl
  | @cons x c vars cs hx _ ih =>
    rw [handedOut_cons, List.length_append, ih, List.countP_cons, hx.shown, Nat.add_comm]
    by_cases hc : isComplex c.value = true <;> simp [hc]

/-- A paused thread hands out as many references as a request asks for. -/
theorem length_handedOut {p : PausedVars} (hp : server.pausedThreads r.thread = some p) :
    (server.handle parseJson evaluate r).1.handedOut.length = nestedAsked parseJson evaluate server r := by
  cases r with
  | scopes frameId => rfl
  | resume t => rfl
  | listVariables varRef =>
    simp only [VarRequest.thread] at hp
    have hlisting : ∀ parentPtr cs,
        (VarResponse.listed (jsonToVariablesCached (varRef / varRefStride) parentPtr cs server).1).handedOut.length =
          cs.countP fun c => isComplex c.value := fun _ _ => length_listing (handsOut_listing hp rfl).2
    simp only [handle, handleVariables, nestedAsked]
    by_cases hroot : varRef % varRefStride = 1
    · simp only [if_pos hroot, hp, Option.map_some]
      exact hlisting _ _
    · simp only [if_neg hroot]
      cases hcached : server.variableCache varRef with
      | none => rfl
      | some v =>
        simp only [hp]
        exact hlisting _ _
  | setVariable varRef name text =>
    simp only [handle, handleSetVariable, nestedAsked]
    cases server.changedState varRef name (newValue parseJson text) with
    | none => rfl
    | some q =>
      by_cases hnew : isComplex (newValue parseJson text) = true <;> simp [hnew, VarResponse.handedOut]
  | evaluate frameId expression =>
    simp only [VarRequest.thread] at hp
    simp only [handle, handleEvaluate, nestedAsked, hp]
    cases evaluate (jqExpression expression) p.state with
    | error e => rfl
    | ok v => by_cases hv : isComplex v = true <;> simp [hv, VarResponse.handedOut]

/-- A thread that hands out a reference stays paused. -/
theorem Answers.paused_after (h : Answers parseJson server r response server') {p : PausedVars}
    (hp : server.pausedThreads r.thread = some p) (hsome : response.handedOut ≠ []) :
    ∃ p', server'.pausedThreads r.thread = some p' := by
  cases h with
  | quiet _ _ hnone => exact absurd hnone hsome
  | handsOut h => exact ⟨_, h.counted⟩
  | changed _ h => exact ⟨_, h.counted⟩
  | resumed t => exact absurd rfl hsome

/-! ## The values -/

/-- A new reference that stays in range belongs to its thread. -/
theorem HandsOut.div_eq {t : Nat} {p : PausedVars} {new : List (Nat × Value)} (h : HandsOut server server' t p new)
    (hroom : 0 < new.length → p.varRefIndex + new.length < varRefStride) {k : Nat} (hk : k ∈ new.map Prod.fst) :
    k / varRefStride = t := by
  have hsome : 0 < new.length := by
    cases new with
    | nil => cases hk
    | cons e new => exact Nat.zero_lt_succ _
  have hlt := hroom hsome
  rw [h.refs, List.mem_range'_1] at hk
  exact Nat.div_eq_of_lt_le (by omega) (by rw [Nat.succ_mul]; omega)

/-- What `clear_thread_variables` keeps are the references of other threads. -/
theorem outside_iff {k t : Nat} : (k < t * varRefStride ∨ t * varRefStride + varRefStride - 1 < k) ↔ k / varRefStride ≠ t := by
  have hpos : 0 < varRefStride := by decide
  have hmod := Nat.mod_lt k hpos
  have hdiv := Nat.div_add_mod k varRefStride
  constructor
  · rintro hout rfl
    rw [Nat.mul_comm] at hdiv
    omega
  · intro hne
    by_contra hin
    rw [not_or, Nat.not_lt, Nat.not_lt] at hin
    exact hne (Nat.div_eq_of_lt_le hin.1 (by rw [Nat.succ_mul]; omega))

/-- A request with room leaves the values of the other threads alone. -/
theorem Answers.cache_outside (h : Answers parseJson server r response server')
    (hroom : ∀ p, server.pausedThreads r.thread = some p → 0 < response.handedOut.length →
      p.varRefIndex + response.handedOut.length < varRefStride)
    {k : Nat} (hk : k / varRefStride ≠ r.thread) : server'.variableCache k = server.variableCache k := by
  cases h with
  | quiet hpaused hcache => rw [hcache]
  | handsOut h => exact h.cache k fun hmem => hk (h.div_eq (hroom _ h.paused) hmem)
  | @changed varRef ref name text p state server' hchanged h =>
    have hne : k ≠ varRef := by
      rintro rfl
      exact hk rfl
    rw [h.cache k fun hmem => hk (h.div_eq (hroom p (pausedThreads_of_changedState hchanged)) hmem)]
    exact Function.update_of_ne hne ..
  | resumed u =>
    simp only [resume, clearThreadVariables]
    exact if_pos (outside_iff.mpr hk)

theorem withChange_cache {varRef : Nat} {name : String} {new : Value} {p : PausedVars} {state : Value} {k : Nat} :
    (server.withChange varRef name new p state).variableCache k =
      if k = varRef then (server.variableCache varRef).map (updateContainer name new) else server.variableCache k :=
  Function.update_apply ..

/-- A request keeps the values of the references handed out before, but for the changes it makes to them. -/
theorem Answers.cache_kept (h : Answers parseJson server r response server') {p p' : PausedVars}
    (hp : server.pausedThreads r.thread = some p) (hp' : server'.pausedThreads r.thread = some p') {old : List (Nat × Value)}
    (hbefore : ∀ k ∈ old.map Prod.fst, k < r.thread * varRefStride + p.varRefIndex + 1)
    (hcached : ∀ e ∈ old, server.variableCache e.1 = some e.2) {e : Nat × Value} (he : e ∈ r.kept response old ++ response.handedOut) :
    server'.variableCache e.1 = some e.2 := by
  have hfresh : ∀ e ∈ old, ∀ n, e.1 ∉ List.range' (r.thread * varRefStride + p.varRefIndex + 1) n := by
    intro e he n hmem
    have hlt := hbefore e.1 (List.mem_map_of_mem he)
    rw [List.mem_range'_1] at hmem
    omega
  cases h with
  | quiet hpaused hcache hnone hkept =>
    rw [hkept, hnone, List.append_nil] at he
    rw [hcache, hcached e he]
  | @handsOut r response server' q h hkept =>
    obtain rfl : q = p := Option.some.inj (h.paused.symm.trans hp)
    rw [hkept, List.mem_append] at he
    rcases he with he | he
    · rw [h.cache e.1 (h.refs ▸ hfresh e he _), hcached e he]
    · exact h.made e he
  | @changed varRef ref name text q state server' hchanged h =>
    obtain rfl : q = p := Option.some.inj ((pausedThreads_of_changedState hchanged).symm.trans hp)
    rw [List.mem_append] at he
    rcases he with he | he
    · obtain ⟨e, hmem, rfl⟩ := List.mem_map.mp he
      have hold := hcached e hmem
      have hnew := h.cache e.1 (h.refs ▸ hfresh e hmem _)
      by_cases hsame : e.1 = varRef
      · rw [if_pos hsame, hnew, withChange_cache, if_pos hsame, ← hsame, hold]
        rfl
      · rw [if_neg hsame, hnew, withChange_cache, if_neg hsame, hold]
    · exact h.made e he
  | resumed u => simp [VarRequest.thread, resume] at hp'

/-- The references of a pause are counted within the range of the thread, and each is entered for its value. -/
structure Sound (s : VarSession) : Prop where
  numbered : Numbered s
  within : ∀ t p, s.server.pausedThreads t = some p → p.varRefIndex < varRefStride
  cached : ∀ t p, s.server.pausedThreads t = some p → ∀ e ∈ s.handed t, s.server.variableCache e.1 = some e.2

/-- The references of a thread lie between its first and its next one. -/
theorem Numbered.bounds {s : VarSession} (h : Numbered s) {t : Nat} {p : PausedVars} (hp : s.server.pausedThreads t = some p) {k : Nat}
    (hk : k ∈ (s.handed t).map Prod.fst) : t * varRefStride + 2 ≤ k ∧ k < t * varRefStride + p.varRefIndex + 1 := by
  obtain ⟨hindex, hrefs⟩ := h t p hp
  rw [hrefs, List.mem_range'_1] at hk
  omega

/-- Every move keeps references distinct and in the range of their thread. -/
theorem Sound.step {s : VarSession} (h : Sound s) (move : VarMove) (hroom : HasRoom parseJson evaluate s move) :
    Sound (s.step parseJson evaluate move) := by
  refine ⟨h.numbered.step move, fun t p' hp' => ?_, fun t p' hp' e he => ?_⟩
  · cases move with
    | pause u state =>
      cases hu : s.server.pausedThreads u with
      | some _ =>
        simp only [VarSession.step, hu] at hp'
        exact h.within t p' hp'
      | none =>
        simp only [VarSession.step, hu, VarServer.pause, Function.update_apply] at hp'
        split at hp'
        · cases hp'
          exact show 1 < varRefStride by decide
        · exact h.within t p' hp'
    | request r =>
      have ha := answers parseJson evaluate s.server r
      simp only [VarSession.step] at hp'
      by_cases ht : t = r.thread
      · subst ht
        obtain ⟨p, hp, hcount, -⟩ := ha.counts hp'
        have hbefore := h.within _ p hp
        have hlength := @length_handedOut parseJson evaluate _ _ _ hp
        by_cases hsome : 0 < nestedAsked parseJson evaluate s.server r
        · have hlt := hroom hsome p hp
          omega
        · omega
      · exact h.within t p' (ha.others ht ▸ hp')
  · cases move with
    | pause u state =>
      cases hu : s.server.pausedThreads u with
      | some _ =>
        simp only [VarSession.step, hu] at hp' he ⊢
        exact h.cached t p' hp' e he
      | none =>
        simp only [VarSession.step, hu, VarServer.pause, Function.update_apply] at hp' he ⊢
        by_cases ht : t = u
        · rw [if_pos ht] at he
          cases he
        · rw [if_neg ht] at hp' he
          exact h.cached t p' hp' e he
    | request r =>
      have ha := answers parseJson evaluate s.server r
      simp only [VarSession.step] at hp' he ⊢
      by_cases ht : t = r.thread
      · subst ht
        rw [Function.update_self] at he
        obtain ⟨p, hp, -⟩ := ha.counts hp'
        exact ha.cache_kept hp hp' (fun k hk => (h.numbered.bounds hp hk).2) (h.cached _ p hp) he
      · rw [Function.update_of_ne ht] at he
        have hp : s.server.pausedThreads t = some p' := ha.others ht ▸ hp'
        have hbounds := h.numbered.bounds hp (List.mem_map_of_mem he)
        have hwithin := h.within t p' hp
        have hdiv : e.1 / varRefStride = t := Nat.div_eq_of_lt_le (by omega) (by rw [Nat.succ_mul]; omega)
        rw [ha.cache_outside (fun p hp hsome => ?_) (hdiv ▸ ht), h.cached t p' hp e he]
        rw [length_handedOut hp] at hsome ⊢
        exact hroom hsome p hp

/-- A listing shows the names and values of the parts. -/
theorem names_of_shows {parentPtr : List Char} {vars : List DapVariable} {cs : List Child}
    (h : List.Forall₂ (Shows server parentPtr) vars cs) :
    (vars.map fun x => (x.name, x.shown)) = cs.map fun c => (c.name, c.value) := by
  induction h with
  | nil => rfl
  | cons hx _ ih => rw [List.map_cons, List.map_cons, ih, hx.name, hx.shown]

/-- A sound session keeps what is promised. -/
theorem Sound.distinct {s : VarSession} (h : Sound s) : DistinctReferences s := by
  intro t p hp
  refine ⟨(h.numbered t p hp).2 ▸ List.nodup_range', fun e he => ?_⟩
  have hbounds := h.numbered.bounds hp (List.mem_map_of_mem he)
  have hwithin := h.within t p hp
  have hin : e.1 < (t + 1) * varRefStride := by rw [Nat.succ_mul]; omega
  have hdiv : e.1 / varRefStride = t := Nat.div_eq_of_lt_le (by omega) hin
  have hmod : e.1 % varRefStride ≠ 1 := by
    have := Nat.div_add_mod e.1 varRefStride
    rw [hdiv, Nat.mul_comm] at this
    omega
  refine ⟨by omega, hin, by omega, ?_⟩
  have hlist : s.server.handleVariables e.1 =
      jsonToVariablesCached t ((s.server.variablePointers e.1).getD []) (children e.2) s.server := by
    simp only [handleVariables, if_neg hmod, h.cached t p hp e he, hdiv, hp]
  rw [Lists, hlist]
  exact names_of_shows (handsOut_listing hp rfl).2

/-- Distinct references have room: the last reference that a request hands out is within the range. -/
theorem hasRoom_of_distinct {s : VarSession} (h : Numbered s) {move : VarMove}
    (hafter : DistinctReferences (s.step parseJson evaluate move)) : HasRoom parseJson evaluate s move := by
  cases move with
  | pause u state => trivial
  | request r =>
    intro hsome p hp
    have hlength := @length_handedOut parseJson evaluate _ _ _ hp
    have ha := answers parseJson evaluate s.server r
    have hnonempty : (s.server.handle parseJson evaluate r).1.handedOut ≠ [] := by
      intro hnil
      rw [hnil] at hlength
      simp at hlength
      omega
    obtain ⟨p', hp'⟩ := ha.paused_after hp hnonempty
    have hnumbered := @Numbered.step parseJson evaluate s h (.request r) r.thread p' hp'
    obtain ⟨q, hq, hcount, -⟩ := ha.counts hp'
    obtain rfl : q = p := Option.some.inj (hq.symm.trans hp)
    obtain ⟨-, hmem⟩ := hafter r.thread p' hp'
    have hlast : r.thread * varRefStride + p'.varRefIndex ∈
        ((s.step parseJson evaluate (.request r)).handed r.thread).map Prod.fst := by
      have hbefore := (h r.thread q hp).1
      have hindex := hnumbered.1
      rw [hnumbered.2, List.mem_range'_1]
      omega
    obtain ⟨e, he, hfst⟩ := List.mem_map.mp hlast
    have hlt := (hmem e he).2.1
    rw [hfst, Nat.succ_mul] at hlt
    omega

theorem numbered_start : Numbered {} := nofun

/-- In every session the references of every pause are distinct, lie in the range of their thread and list their values exactly as long as
the references that each request asks for fit into the range. -/
theorem references_distinct_iff (parseJson : String → Option Value) (evaluate : String → Value → Except String Value)
    (moves : List VarMove) :
    Runs.Always (VarSession.step parseJson evaluate) DistinctReferences {} moves ↔
      Runs.EveryStep (VarSession.step parseJson evaluate) (HasRoom parseJson evaluate) {} moves := by
  constructor
  · intro h pre move post e
    have hnumbered : Numbered (Runs.after (VarSession.step parseJson evaluate) {} pre) :=
      Runs.after_of_step (fun s a hs => hs.step a) numbered_start pre
    have hafter := h (pre ++ [move]) post (by rw [e, List.append_assoc, List.singleton_append])
    rw [Runs.after_snoc] at hafter
    exact hasRoom_of_distinct hnumbered hafter
  · intro h pre post e
    have hsound : Runs.Always (VarSession.step parseJson evaluate) Sound {} moves :=
      Runs.always_of_everyStep (fun s a hs hroom => hs.step a hroom) ⟨numbered_start, nofun, nofun⟩ moves h
    exact (hsound pre post e).distinct

/-- An array of so many arrays has so many parts that are containers. -/
theorem countP_children_replicate (n : Nat) :
    ((children (.array (List.replicate n (.array [])))).countP fun c => isComplex c.value) = n := by
  have hfst : ((fun c : Child => isComplex c.value) ∘ fun p : Value × Nat => (⟨s!"[{p.2}]", (toString p.2).toList, p.1⟩ : Child)) =
      isComplex ∘ Prod.fst := rfl
  rw [children, List.countP_map, hfst, ← List.countP_map, List.zipIdx_map_fst, List.countP_replicate]
  exact if_pos rfl

/-- A thread whose state is an array of as many arrays as the range is long: its parts take all the references, and one too many. -/
theorem references_collide :
    ¬ ∀ (parseJson : String → Option Value) (evaluate : String → Value → Except String Value) (moves : List VarMove),
      Runs.Always (VarSession.step parseJson evaluate) DistinctReferences {} moves := by
  intro h
  have hlong : ∀ n, HasRoom (fun _ => none) (fun _ v => .ok v)
      (VarSession.step (fun _ => none) (fun _ v => .ok v) {} (.pause 1 (.array (List.replicate n (.array [])))))
      (.request (.listVariables 100001)) := by
    intro n
    refine hasRoom_of_distinct (numbered_start.step _) ?_
    exact h _ _ [.pause 1 (.array (List.replicate n (.array []))), .request (.listVariables 100001)]
      [.pause 1 (.array (List.replicate n (.array []))), .request (.listVariables 100001)] [] (List.append_nil _).symm
  have hasked : ∀ n, nestedAsked (fun _ => none) (fun _ v => .ok v)
      (VarSession.step (fun _ => none) (fun _ v => .ok v) {} (.pause 1 (.array (List.replicate n (.array []))))).server
      (.listVariables 100001) = n := countP_children_replicate
  have hroom : ∀ n, 0 < n → 1 + n < varRefStride := by
    intro n hn
    have hlt := hlong n
    simp only [HasRoom, hasked] at hlt
    exact hlt hn _ rfl
  exact absurd (hroom varRefStride (by decide)) (by omega)

end Session

end WebPipe
