import Mathlib.Data.List.Forall2
import WebPipe.JsonText
import WebPipe.Lemmas.Pointers
import WebPipe.Theorems.VariableReferences

/-!
# Setting a listed variable

A reference that came from a scope has the pointer to its place registered, and the result of an expression has none, so a part of it is
registered as a part of the state (`Placed`). `setVariable_law_iff`: setting a listed variable replaces just what was listed exactly
when it is a member of an object that was reached from the state itself and is still there.
-/

namespace WebPipe

open VarServer

/-! ## What is registered -/

/-- The pointer that is registered for a reference. -/
def Origin.pointer (o : Origin) : Option (List Char) := if o.evaluated = true ∧ o.path = [] then none else some (pointerText o.path)

/-- A reference that its thread has not handed out in this pause. -/
def VarServer.Fresh (server : VarServer) (k : Nat) : Prop :=
  k % varRefStride ≠ 1 ∧ ∀ p, server.pausedThreads (k / varRefStride) = some p → k / varRefStride * varRefStride + p.varRefIndex < k

/-- The tables hold the pointers of the origins, nothing under references to come, and values with parts. -/
structure Placed (server : VarServer) (origins : Nat → Option Origin) : Prop where
  pointers : ∀ k o, origins k = some o → server.variablePointers k = o.pointer
  fresh : ∀ k, server.Fresh k → origins k = none ∧ server.variablePointers k = none
  complex : ∀ k v, server.variableCache k = some v → isComplex v = true
  root : ∀ k o, origins k = some o → k % varRefStride = 1 → o = .scope

variable {server server' : VarServer} {origins origins' : Nat → Option Origin} {t : Nat} {p : PausedVars} {new : List (Nat × Value)}

/-- A reference that is handed out with room is fresh. -/
theorem HandsOut.fresh (h : HandsOut server server' t p new) (hroom : 0 < new.length → p.varRefIndex + new.length < varRefStride)
    (hindex : 1 ≤ p.varRefIndex) {k : Nat} (hk : k ∈ new.map Prod.fst) : server.Fresh k := by
  have hdiv := h.div_eq hroom hk
  have hmod := Nat.div_add_mod k varRefStride
  rw [hdiv, Nat.mul_comm] at hmod
  rw [h.refs, List.mem_range'_1] at hk
  refine ⟨by omega, fun q hq => ?_⟩
  rw [hdiv] at hq ⊢
  obtain rfl : p = q := Option.some.inj (h.paused.symm.trans hq)
  omega

/-- A reference that is fresh afterwards was not handed out, and was fresh before. -/
theorem HandsOut.fresh_before (h : HandsOut server server' t p new) {k : Nat} (hk : server'.Fresh k)
    (hroom : 0 < new.length → p.varRefIndex + new.length < varRefStride) : k ∉ new.map Prod.fst ∧ server.Fresh k := by
  obtain ⟨hroot, hcount⟩ := hk
  constructor
  · intro hmem
    have hdiv := h.div_eq hroom hmem
    have hlt := hcount _ (hdiv ▸ h.counted)
    rw [h.refs, List.mem_range'_1] at hmem
    rw [hdiv] at hlt
    dsimp only at hlt
    omega
  · refine ⟨hroot, fun q hq => ?_⟩
    by_cases ht : k / varRefStride = t
    · have hlt := hcount _ (ht ▸ h.counted)
      obtain rfl : q = p := Option.some.inj (hq.symm.trans (ht ▸ h.paused))
      dsimp only at hlt
      omega
    · exact hcount q (h.others _ ht ▸ hq)

/-- Handing out references keeps what is registered, if each new one has the pointer of its origin. -/
theorem Placed.handsOut (h : Placed server origins) (hands : HandsOut server server' t p new)
    (hroom : 0 < new.length → p.varRefIndex + new.length < varRefStride) (hindex : 1 ≤ p.varRefIndex)
    (hcomplex : ∀ e ∈ new, isComplex e.2 = true) (hold : ∀ k, k ∉ new.map Prod.fst → origins' k = origins k)
    (hnew : ∀ k ∈ new.map Prod.fst, ∀ o, origins' k = some o → server'.variablePointers k = o.pointer) : Placed server' origins' where
  pointers k o ho := by
    by_cases hk : k ∈ new.map Prod.fst
    · exact hnew k hk o ho
    · rw [hands.pointers k hk]
      exact h.pointers k o (hold k hk ▸ ho)
  fresh k hk := by
    obtain ⟨hout, hbefore⟩ := hands.fresh_before hk hroom
    rw [hold k hout, hands.pointers k hout]
    exact h.fresh k hbefore
  complex k v hv := by
    by_cases hk : k ∈ new.map Prod.fst
    · obtain ⟨e, he, rfl⟩ := List.mem_map.mp hk
      obtain rfl := Option.some.inj ((hands.made e he).symm.trans hv)
      exact hcomplex e he
    · exact h.complex k v (hands.cache k hk ▸ hv)
  root k o ho hroot := by
    by_cases hk : k ∈ new.map Prod.fst
    · exact absurd hroot (hands.fresh hroom hindex hk).1
    · exact h.root k o (hold k hk ▸ ho) hroot

/-- References are handed out for values with parts. -/
theorem isComplex_of_handedOut {response : VarResponse} : ∀ e ∈ response.handedOut, isComplex e.2 = true := by
  intro e he
  cases response with
  | listed vars =>
    obtain ⟨x, hx, rfl⟩ := List.mem_map.mp he
    exact (List.mem_filter.mp hx).2
  | value v ref =>
    by_cases hv : isComplex v = true
    · rw [VarResponse.handedOut, if_pos hv, List.mem_singleton] at he
      exact he ▸ hv
    · rw [VarResponse.handedOut, if_neg hv] at he
      cases he
  | _ => cases he

/-- A container with a new part is one. -/
theorem isComplex_updateContainer {name : String} {new v : Value} (h : isComplex v = true) :
    isComplex (updateContainer name new v) = true := by
  cases v <;> try cases h
  · next items =>
    rw [updateContainer]
    split
    · split <;> rfl
    · rfl
  · rfl

/-- A change of a part keeps what is registered. -/
theorem Placed.withChange (h : Placed server origins) {varRef : Nat} {name : String} {v state : Value}
    (hp : server.pausedThreads (varRef / varRefStride) = some p) : Placed (server.withChange varRef name v p state) origins where
  pointers := h.pointers
  fresh k hk := by
    refine h.fresh k ⟨hk.1, fun q hq => ?_⟩
    have hcount := hk.2
    simp only [VarServer.withChange, Function.update_apply] at hcount
    split at hcount
    · next ht =>
      obtain rfl : p = q := Option.some.inj (hp.symm.trans (ht ▸ hq))
      have hlt := hcount _ rfl
      exact hlt
    · exact hcount q hq
  complex k w hw := by
    rw [withChange_cache] at hw
    split at hw
    · obtain ⟨u, hu, rfl⟩ := Option.map_eq_some_iff.mp hw
      exact isComplex_updateContainer (h.complex varRef u hu)
    · exact h.complex k w hw
  root := h.root

/-! ## Listings -/

/-- A part and the path to it. -/
inductive PartAt : Child → List PathStep → Prop
  | member (key : String) (v : Value) : PartAt { name := key, token := escapeJsonPointer key, value := v } [.member key]
  | item (i : Nat) (v : Value) : PartAt { name := s!"[{i}]", token := (toString i).toList, value := v } [.item i]
  | whole {v : Value} (h : isComplex v = false) : PartAt { name := "value", token := [], value := v } []

/-- What is listed of a value are its parts, each with its path. -/
theorem partAt_children (v : Value) : List.Forall₂ PartAt (children v) (childPaths v) := by
  cases v with
  | object members =>
    rw [children, childPaths, List.forall₂_map_left_iff, List.forall₂_map_right_iff, List.forall₂_same]
    exact fun q _ => .member q.1 q.2
  | array items =>
    rw [children, childPaths, List.forall₂_map_left_iff, List.forall₂_map_right_iff, List.forall₂_same]
    exact fun q _ => .item q.2 q.1
  | _ => exact .cons (.whole rfl) .nil

/-- A part that has parts itself is a step away. -/
theorem PartAt.exists_step {c : Child} {path : List PathStep} (h : PartAt c path) (hc : isComplex c.value = true) :
    ∃ step, path = [step] ∧ c.token = step.token := by
  cases h with
  | member key v => exact ⟨.member key, rfl, rfl⟩
  | item i v => exact ⟨.item i, rfl, rfl⟩
  | whole hwhole => exact absurd hc (by rw [hwhole]; decide)

/-- Two relations along lists compose along their pairs. -/
theorem exists_between {α β γ : Type*} {R : α → β → Prop} {S : β → γ → Prop} {xs : List α} {ys : List β} {zs : List γ}
    (h : List.Forall₂ R xs ys) (h' : List.Forall₂ S ys zs) {q : α × γ} (hq : q ∈ xs.zip zs) : ∃ y, R q.1 y ∧ S y q.2 := by
  induction h generalizing zs with
  | nil => cases hq
  | cons hxy _ ih =>
    cases h' with
    | cons hyz h' =>
      rw [List.zip_cons_cons, List.mem_cons] at hq
      rcases hq with rfl | hq
      · exact ⟨_, hxy, hyz⟩
      · exact ih h' hq

/-- The origins of what a listing hands out have the pointers that it registers. -/
theorem originsListed_spec {parentPtr : List Char} {vars : List DapVariable} {v : Value} {o : Option Origin}
    (h : List.Forall₂ (Shows server' parentPtr) vars (children v)) (hparent : ∀ o', o = some o' → parentPtr = pointerText o'.path) :
    (∀ k, k ∉ (VarResponse.listed vars).handedOut.map Prod.fst → originsListed vars (childPaths v) o origins k = origins k) ∧
      ∀ k ∈ (VarResponse.listed vars).handedOut.map Prod.fst, ∀ o', originsListed vars (childPaths v) o origins k = some o' →
        server'.variablePointers k = o'.pointer := by
  have hmem : ∀ k, k ∈ (VarResponse.listed vars).handedOut.map Prod.fst ↔
      ∃ x ∈ vars, isComplex x.shown = true ∧ x.variablesReference = k := by
    intro k
    simp [VarResponse.handedOut, and_assoc]
  have hlength : vars.length = (childPaths v).length := h.length_eq.trans (partAt_children v).length_eq
  constructor
  · intro k hk
    have hnone : ((vars.zip (childPaths v)).find? fun q => isComplex q.1.shown && q.1.variablesReference == k) = none := by
      rw [List.find?_eq_none]
      intro q hq hfound
      rw [Bool.and_eq_true, beq_iff_eq] at hfound
      exact hk ((hmem k).mpr ⟨q.1, (List.of_mem_zip hq).1, hfound⟩)
    rw [originsListed, hnone]
  · intro k hk o' ho'
    obtain ⟨x, hx, hcomplex, rfl⟩ := (hmem k).mp hk
    have hzip : (vars.zip (childPaths v)).map Prod.fst = vars := List.map_fst_zip hlength.le
    obtain ⟨q, hq, rfl⟩ := List.mem_map.mp (hzip ▸ hx)
    cases hfind : (vars.zip (childPaths v)).find? fun r => isComplex r.1.shown && r.1.variablesReference == q.1.variablesReference with
    | none =>
      rw [List.find?_eq_none] at hfind
      exact absurd (by rw [hcomplex, beq_self_eq_true]; rfl) (hfind q hq)
    | some r =>
      have hr := List.mem_of_find?_eq_some hfind
      have hfound := List.find?_some hfind
      rw [Bool.and_eq_true, beq_iff_eq] at hfound
      rw [originsListed, hfind, Option.map_eq_some_iff] at ho'
      obtain ⟨o₁, rfl, rfl⟩ := ho'
      obtain ⟨c, hshows, hpart⟩ := exists_between h (partAt_children v) hr
      have hpointer := hshows.pointer (hshows.shown ▸ hfound.1)
      rw [hfound.2, hparent o₁ rfl] at hpointer
      obtain ⟨step, hstep, htoken⟩ := hpart.exists_step (hshows.shown ▸ hfound.1)
      have hsome : ¬ ((o₁.extend r.2).evaluated = true ∧ (o₁.extend r.2).path = []) := by
        rintro ⟨-, hnil⟩
        simp [Origin.extend, hstep] at hnil
      rw [hpointer, Origin.pointer, if_neg hsome, Origin.extend, hstep, pointerText_append, htoken]

section Session

variable {parseJson : String → Option Value} {evaluate : String → Value → Except String Value}
variable {selects : String → Value → Option (List PathStep)}

theorem Origin.pointer_getD (o : Origin) : o.pointer.getD [] = pointerText o.path := by
  unfold Origin.pointer
  split
  · next h => rw [h.2]; rfl
  · rfl

/-- Listing a value keeps what is registered. -/
theorem Placed.listing (h : Placed server origins) (hp : server.pausedThreads t = some p) (hindex : 1 ≤ p.varRefIndex) (varRef : Nat)
    (v : Value) {vars : List DapVariable}
    (hlist : jsonToVariablesCached t ((server.variablePointers varRef).getD []) (children v) server = (vars, server'))
    (hroom : 0 < (VarResponse.listed vars).handedOut.length → p.varRefIndex + (VarResponse.listed vars).handedOut.length < varRefStride) :
    Placed server' (originsListed vars (childPaths v) (origins varRef) origins) := by
  obtain ⟨hands, hshows⟩ := handsOut_listing hp hlist
  obtain ⟨hold, hnew⟩ := @originsListed_spec server' origins _ _ _ (origins varRef) hshows fun o' ho' => by
    rw [h.pointers varRef o' ho', o'.pointer_getD]
  exact h.handsOut hands hroom hindex isComplex_of_handedOut hold hnew

/-! ## Requests -/

/-- What is registered after a request. -/
def PlacedAfter (parseJson : String → Option Value) (evaluate : String → Value → Except String Value)
    (selects : String → Value → Option (List PathStep)) (server : VarServer) (origins : Nat → Option Origin) (r : VarRequest) : Prop :=
  Placed (server.handle parseJson evaluate r).2 (r.origins selects server (server.handle parseJson evaluate r).1 origins)

/-- Scopes keep the tables right. -/
theorem placed_scopes (h : Placed server origins) (frameId : Nat) :
    PlacedAfter parseJson evaluate selects server origins (.scopes frameId) := by
  have hroot : ∀ k, k % varRefStride ≠ 1 → k ≠ frameId / 10000 * varRefStride + 1 := by
    rintro k hk rfl
    exact hk (Nat.mul_add_mod_of_lt (by decide))
  simp only [PlacedAfter, handle, handleScopes, VarRequest.origins]
  refine ⟨fun k o ho => ?_, fun k hk => ?_, h.complex, fun k o ho hmod => ?_⟩
  · rw [Function.update_apply] at ho
    dsimp only
    rw [Function.update_apply]
    split at ho
    · next hk =>
      cases ho
      rw [if_pos hk]
      rfl
    · next hk =>
      rw [if_neg hk]
      exact h.pointers k o ho
  · dsimp only
    rw [Function.update_of_ne (hroot k hk.1), Function.update_of_ne (hroot k hk.1)]
    exact h.fresh k hk
  · rw [Function.update_apply] at ho
    split at ho
    · exact (Option.some.inj ho).symm
    · exact h.root k o ho hmod

/-- A thread that resumes takes its references with it. -/
theorem placed_resume (h : Placed server origins) (u : Nat) :
    PlacedAfter parseJson evaluate selects server origins (.resume u) := by
  simp only [PlacedAfter, handle, resume, clearThreadVariables, VarRequest.origins, outside_iff]
  refine ⟨fun k o ho => ?_, fun k hk => ?_, fun k v hv => ?_, fun k o ho hmod => ?_⟩
  · dsimp only
    by_cases hu : k / varRefStride = u
    · rw [if_neg (not_not_intro hu)] at ho
      cases ho
    · rw [if_pos hu] at ho ⊢
      exact h.pointers k o ho
  · dsimp only
    by_cases hu : k / varRefStride = u
    · rw [if_neg (not_not_intro hu), if_neg (not_not_intro hu)]
      exact ⟨rfl, rfl⟩
    · rw [if_pos hu, if_pos hu]
      exact h.fresh k ⟨hk.1, fun q hq => hk.2 q ((Function.update_of_ne hu ..).trans hq)⟩
  · dsimp only at hv
    split at hv
    · exact h.complex k v hv
    · cases hv
  · split at ho
    · exact h.root k o ho hmod
    · cases ho

/-- What a request hands out to a paused thread has room. -/
def Fits (parseJson : String → Option Value) (evaluate : String → Value → Except String Value) (server : VarServer) (r : VarRequest) :
    Prop :=
  ∀ p, server.pausedThreads r.thread = some p →
    1 ≤ p.varRefIndex ∧ (0 < (server.handle parseJson evaluate r).1.handedOut.length →
      p.varRefIndex + (server.handle parseJson evaluate r).1.handedOut.length < varRefStride)

/-- A listing registers the parts at their places. -/
theorem placed_listVariables (h : Placed server origins) {varRef : Nat} (hfits : Fits parseJson evaluate server (.listVariables varRef)) :
    PlacedAfter parseJson evaluate selects server origins (.listVariables varRef) := by
  have hlisting : ∀ v p, server.pausedThreads (varRef / varRefStride) = some p → server.shownValue varRef = some v →
      server.handleVariables varRef = jsonToVariablesCached (varRef / varRefStride) ((server.variablePointers varRef).getD [])
        (children v) server → PlacedAfter parseJson evaluate selects server origins (.listVariables varRef) := by
    intro v p hp hshown hlist
    have hroom := (hfits p hp).2
    simp only [PlacedAfter, VarServer.handle, VarRequest.origins, hshown] at hroom ⊢
    exact h.listing hp (hfits p hp).1 varRef v hlist.symm hroom
  have hnothing : server.handleVariables varRef = ([], server) →
      PlacedAfter parseJson evaluate selects server origins (.listVariables varRef) := by
    intro hnone
    simp only [PlacedAfter, VarServer.handle, VarRequest.origins, hnone]
    split
    · exact h
    · exact h
  by_cases hroot : varRef % varRefStride = 1
  · cases hp : server.pausedThreads (varRef / varRefStride) with
    | none => exact hnothing (by simp only [handleVariables, if_pos hroot, hp])
    | some p => exact hlisting p.state p hp (by simp [shownValue, hroot, hp]) (by simp only [handleVariables, if_pos hroot, hp])
  · cases hv : server.variableCache varRef with
    | none => exact hnothing (by simp only [handleVariables, if_neg hroot, hv])
    | some v =>
      cases hp : server.pausedThreads (varRef / varRefStride) with
      | none => exact hnothing (by simp only [handleVariables, if_neg hroot, hv, hp])
      | some p => exact hlisting v p hp (by simp [shownValue, hroot, hv]) (by simp only [handleVariables, if_neg hroot, hv, hp])

/-- The result of an expression has no place, and its parts are registered below the root. -/
theorem placed_evaluate (h : Placed server origins) {frameId : Option Nat} {expression : String}
    (hfits : Fits parseJson evaluate server (.evaluate frameId expression)) :
    PlacedAfter parseJson evaluate selects server origins (.evaluate frameId expression) := by
  unfold PlacedAfter
  cases hp : server.pausedThreads (frameThread frameId) with
  | none =>
    simp only [VarServer.handle, handleEvaluate, hp]
    exact h
  | some p =>
    obtain ⟨hindex, hroom⟩ := hfits p hp
    simp only [VarServer.handle, handleEvaluate, hp] at hroom ⊢
    cases hv : evaluate (jqExpression expression) p.state with
    | error e => exact h
    | ok v =>
      rw [hv] at hroom
      dsimp only at hroom ⊢
      by_cases hcomplex : isComplex v = true
      · rw [if_pos hcomplex] at hroom ⊢
        rcases hmade : server.allocate (frameThread frameId) v none with ⟨ref, server'⟩
        rw [hmade] at hroom
        have hout : (VarResponse.value v ref).handedOut = [(ref, v)] := if_pos hcomplex
        simp only [hout] at hroom
        simp only [VarRequest.origins, if_pos hcomplex]
        have hands := (handsOut_allocate hp hmade).1
        have hfresh := (h.fresh ref (hands.fresh hroom hindex List.mem_cons_self)).2
        have hpointers : server'.variablePointers = server.variablePointers := by
          simp only [allocate, hp, Prod.mk.injEq] at hmade
          rw [← hmade.2]
        refine h.handsOut hands hroom hindex (by simpa using hcomplex) (fun k hk => ?_) fun k hk o ho => ?_
        · exact Function.update_of_ne (fun he : k = ref => hk (List.mem_singleton.mpr he)) ..
        · obtain rfl : k = ref := List.mem_singleton.mp hk
          rw [Function.update_self] at ho
          rw [hpointers, hfresh, ← Option.some.inj ho]
          rfl
      · rw [if_neg hcomplex]
        simp only [VarRequest.origins, if_neg hcomplex]
        exact h

/-- The pointer to a part, for a reference whose origin is known. -/
theorem Placed.targetPtr_eq (h : Placed server origins) {varRef : Nat} {o : Origin} (ho : origins varRef = some o) (name : String) :
    server.targetPtr varRef name =
      if o.evaluated = true ∧ o.path = [] then none else some (pointerText (o.path ++ [.member name])) := by
  rw [targetPtr, h.pointers varRef o ho, Origin.pointer]
  split
  · rfl
  · rw [Option.map_some, pointerText_append]
    rfl

/-- A variable that was set is registered where it stands. -/
theorem placed_setVariable (h : Placed server origins) {varRef : Nat} {name text : String}
    (hfits : Fits parseJson evaluate server (.setVariable varRef name text)) :
    PlacedAfter parseJson evaluate selects server origins (.setVariable varRef name text) := by
  unfold PlacedAfter
  cases hchanged : server.changedState varRef name (newValue parseJson text) with
  | none =>
    simp only [VarServer.handle, handleSetVariable, hchanged]
    exact h
  | some q =>
    obtain ⟨p, state⟩ := q
    have hp := pausedThreads_of_changedState hchanged
    obtain ⟨hindex, hroom⟩ := hfits p hp
    have hwith : Placed (server.withChange varRef name (newValue parseJson text) p state) origins := h.withChange hp
    simp only [VarServer.handle, handleSetVariable, hchanged] at hroom ⊢
    by_cases hcomplex : isComplex (newValue parseJson text) = true
    · rcases hmade : (server.withChange varRef name (newValue parseJson text) p state).allocate (varRef / varRefStride)
        (newValue parseJson text) (server.targetPtr varRef name) with ⟨ref, server'⟩
      have hout : (VarResponse.value (newValue parseJson text) ref).handedOut = [(ref, newValue parseJson text)] := if_pos hcomplex
      obtain ⟨hands, hpointer⟩ := handsOut_allocate (Function.update_self ..) hmade
      rw [VarServer.withChange] at hmade
      rw [if_pos hcomplex, hmade] at hroom ⊢
      simp only [hout] at hroom
      simp only [VarRequest.origins, if_pos hcomplex]
      refine hwith.handsOut hands hroom hindex (by simpa using hcomplex) (fun k hk => ?_) fun k hk o ho => ?_
      · exact Function.update_of_ne (fun he : k = ref => hk (List.mem_singleton.mpr he)) ..
      · obtain rfl : k = ref := List.mem_singleton.mp hk
        rw [Function.update_self, originSet, hp, Option.bind_some, Option.bind_eq_some_iff] at ho
        obtain ⟨o₁, ho₁, ho⟩ := ho
        split at ho
        · obtain rfl := Option.some.inj ho
          have htarget := h.targetPtr_eq ho₁ name
          split at htarget
          · simp only [changedState, htarget, Option.bind_none] at hchanged
            cases hchanged
          · rw [hpointer _ htarget]
            rfl
        · cases ho
    · rw [if_neg hcomplex]
      simp only [VarRequest.origins, if_neg hcomplex]
      exact hwith

/-- Every move keeps the tables right. -/
theorem Placed.step {s : PlacedSession} (h : Placed s.server s.origins) (hsound : Sound s.toVarSession) (move : VarMove)
    (hroom : HasRoom parseJson evaluate s.toVarSession move) :
    Placed (s.step parseJson evaluate selects move).server (s.step parseJson evaluate selects move).origins := by
  cases move with
  | pause u state =>
    simp only [PlacedSession.step, VarSession.step]
    cases hu : s.server.pausedThreads u with
    | some _ => exact h
    | none =>
      refine ⟨h.pointers, fun k hk => h.fresh k ⟨hk.1, fun q hq => ?_⟩, h.complex, h.root⟩
      have hne : k / varRefStride ≠ u := by
        intro he
        rw [he, hu] at hq
        cases hq
      exact hk.2 q ((Function.update_of_ne hne ..).trans hq)
  | request r =>
    have hfits : Fits parseJson evaluate s.server r := by
      intro p hp
      have hcount := (hsound.numbered _ p hp).1
      refine ⟨by omega, fun hsome => ?_⟩
      rw [length_handedOut hp] at hsome ⊢
      exact hroom hsome p hp
    have hafter : PlacedAfter parseJson evaluate selects s.server s.origins r := by
      cases r with
      | scopes frameId => exact placed_scopes h frameId
      | listVariables varRef => exact placed_listVariables h hfits
      | setVariable varRef name text => exact placed_setVariable h hfits
      | evaluate frameId expression => exact placed_evaluate h hfits
      | resume u => exact placed_resume h u
    exact hafter

/-! ## The law -/

/-- Listing what is under a reference and then setting a name to a text replaces the value in a place of the state, and nothing else; the
thread resumes with that state. -/
def SetsTo (parseJson : String → Option Value) (server : VarServer) (varRef : Nat) (name text : String) (path : List PathStep) : Prop :=
  let set := (server.handleVariables varRef).2.handleSetVariable varRef name (newValue parseJson text)
  ∃ paused state, server.pausedThreads (varRef / varRefStride) = some paused ∧
    Value.putAt (newValue parseJson text) path paused.state = some state ∧
    (∃ refId, set.1 = some (newValue parseJson text, refId)) ∧
    (set.2.resume (varRef / varRefStride)).1 = some state ∧
    ∀ u, u ≠ varRef / varRefStride → set.2.pausedThreads u = server.pausedThreads u

/-- The condition: the reference was reached from the state itself and has a pointer, and the part is a member of an object that is there.
The indices on the way are `usize`. -/
structure Settable (server : VarServer) (varRef : Nat) (o : Origin) (path : List PathStep) : Prop where
  start : o.start = some []
  expanded : o.evaluated = true → o.path ≠ []
  member : ∃ key, path = [.member key]
  there : ∃ paused, server.pausedThreads (varRef / varRefStride) = some paused ∧ (paused.state.getAt (o.path ++ path)).isSome
  indices : ∀ i, .item i ∈ o.path → i < 2 ^ 64

/-- What is listed for a reference of a paused thread. -/
theorem exists_listing {varRef : Nat} {v : Value} (hshown : server.shownValue varRef = some v)
    (hsome : (server.handleVariables varRef).1 ≠ []) :
    ∃ p, server.pausedThreads (varRef / varRefStride) = some p ∧
      server.handleVariables varRef =
        jsonToVariablesCached (varRef / varRefStride) ((server.variablePointers varRef).getD []) (children v) server := by
  unfold handleVariables at hsome ⊢
  unfold shownValue at hshown
  cases hp : server.pausedThreads (varRef / varRefStride) with
  | none =>
    simp only [hp] at hsome
    split at hsome
    · exact absurd rfl hsome
    · split at hsome
      · exact absurd rfl hsome
      · exact absurd rfl hsome
  | some p =>
    refine ⟨p, rfl, ?_⟩
    by_cases hroot : varRef % varRefStride = 1
    · rw [if_pos hroot, hp, Option.map_some, Option.some.injEq] at hshown
      simp only [if_pos hroot, hp, hshown]
    · rw [if_neg hroot] at hshown
      simp only [if_neg hroot, hp, hshown]

/-- A request that changes the state answers with the new value, and the thread resumes with the new state. -/
theorem handleSetVariable_of_changed {varRef : Nat} {name : String} {new state : Value}
    (h : server.changedState varRef name new = some (p, state)) :
    (∃ refId, (server.handleSetVariable varRef name new).1 = some (new, refId)) ∧
      ((server.handleSetVariable varRef name new).2.resume (varRef / varRefStride)).1 = some state ∧
      ∀ u, u ≠ varRef / varRefStride → (server.handleSetVariable varRef name new).2.pausedThreads u = server.pausedThreads u := by
  rw [handleSetVariable, h]
  dsimp only
  split
  · refine ⟨⟨_, rfl⟩, ?_, fun u hu => ?_⟩
    · simp [VarServer.resume, clearThreadVariables, allocate]
    · simp [allocate, hu]
  · refine ⟨⟨_, rfl⟩, ?_, fun u hu => ?_⟩
    · simp [VarServer.resume, clearThreadVariables]
    · simp [hu]

/-- Setting a listed variable assigns through the names on the way to it. -/
theorem setsTo_iff (h : Placed server origins) {varRef : Nat} {o : Origin} (ho : origins varRef = some o) {v : Value}
    (hp : server.pausedThreads (varRef / varRefStride) = some p) (hindex : 1 ≤ p.varRefIndex)
    (hlist : server.handleVariables varRef =
      jsonToVariablesCached (varRef / varRefStride) ((server.variablePointers varRef).getD []) (children v) server)
    {name text : String} {path : List PathStep} :
    SetsTo parseJson server varRef name text path ↔ ¬ (o.evaluated = true ∧ o.path = []) ∧
      ∃ state, Value.putAt (newValue parseJson text) path p.state = some state ∧
        Value.setTokens (newValue parseJson text) (o.path.map PathStep.name ++ [name]) p.state = some state := by
  rcases hlisted : jsonToVariablesCached (varRef / varRefStride) ((server.variablePointers varRef).getD []) (children v) server with
    ⟨vars, server₁⟩
  have hands := (handsOut_listing hp hlisted).1
  have hkept : varRef ∉ (VarResponse.listed vars).handedOut.map Prod.fst := by
    have hold : ¬ server.Fresh varRef := fun hfresh => by simp [(h.fresh varRef hfresh).1] at ho
    intro hmem
    rw [hands.refs, List.mem_range'_1] at hmem
    refine hold ⟨fun hroot => ?_, fun q hq => ?_⟩
    · have hdiv := Nat.div_add_mod varRef varRefStride
      rw [Nat.mul_comm] at hdiv
      omega
    · obtain rfl : p = q := Option.some.inj (hp.symm.trans hq)
      omega
  have htarget : server₁.targetPtr varRef name = server.targetPtr varRef name := by
    rw [targetPtr, targetPtr, hands.pointers varRef hkept]
  have hothers : ∀ u, u ≠ varRef / varRefStride → server₁.pausedThreads u = server.pausedThreads u := hands.others
  have hchanged : server₁.changedState varRef name (newValue parseJson text) =
      if o.evaluated = true ∧ o.path = [] then none
      else (Value.setTokens (newValue parseJson text) (o.path.map PathStep.name ++ [name]) p.state).map
        fun state => ({ p with varRefIndex := p.varRefIndex + (VarResponse.listed vars).handedOut.length }, state) := by
    rw [changedState, htarget, h.targetPtr_eq ho name]
    split
    · rfl
    · rw [Option.bind_some, hands.counted, Option.bind_some, Value.pointerSet, pointerTokens_pointerText, List.map_append]
      rfl
  unfold SetsTo
  rw [hlist, hlisted]
  constructor
  · rintro ⟨q, state, hq, hput, ⟨refId, hset⟩, hresumed, -⟩
    obtain rfl : p = q := Option.some.inj (hp.symm.trans hq)
    cases hafter : server₁.changedState varRef name (newValue parseJson text) with
    | none =>
      simp only [handleSetVariable, hafter] at hset
      cases hset
    | some r =>
      obtain ⟨-, hstate, -⟩ := handleSetVariable_of_changed hafter
      rw [hstate, Option.some.injEq] at hresumed
      rw [hafter] at hchanged
      split at hchanged
      · cases hchanged
      · next hsome =>
        obtain ⟨state', hset', he⟩ := Option.map_eq_some_iff.mp hchanged.symm
        rw [← he] at hresumed
        exact ⟨hsome, state, hput, hset'.trans (congrArg some hresumed)⟩
  · rintro ⟨hsome, state, hput, hset⟩
    rw [if_neg hsome, hset, Option.map_some] at hchanged
    obtain ⟨hvalue, hstate, hrest⟩ := handleSetVariable_of_changed hchanged
    exact ⟨p, state, hp, hput, hvalue, hstate, fun u hu => (hrest u hu).trans (hothers u hu)⟩

/-- A value that is listed whole has no parts. -/
theorem not_complex_of_whole {v : Value} (h : [] ∈ childPaths v) : isComplex v = false := by
  cases v <;> try rfl
  · simp [childPaths] at h
  · simp [childPaths] at h

/-- The names of a path lead along it exactly if its indices are `usize`. -/
theorem forall₂_readBy_name {path : List PathStep} :
    List.Forall₂ PathStep.ReadBy (path.map PathStep.name) path ↔ ∀ i, .item i ∈ path → i < 2 ^ 64 := by
  rw [List.forall₂_map_left_iff, List.forall₂_same]
  constructor
  · intro h i hi
    exact parseIndex_lt (h _ hi)
  · intro h step hstep
    cases step with
    | member key => rfl
    | item i => exact parseIndex_toString (h i hstep)

/-- A session that kept to the ranges of its threads. -/
structure OrderlyPlaces (s : PlacedSession) : Prop where
  sound : Sound s.toVarSession
  placed : Placed s.server s.origins

/-- Every session whose references stay in range keeps its tables right. -/
theorem orderly_after {moves : List VarMove}
    (hroom : Runs.EveryStep (PlacedSession.step parseJson evaluate selects) (fun s => HasRoom parseJson evaluate s.toVarSession) {} moves) :
    OrderlyPlaces (Runs.after (PlacedSession.step parseJson evaluate selects) {} moves) := by
  have hstart : OrderlyPlaces {} := by
    refine ⟨⟨numbered_start, nofun, nofun⟩, nofun, fun k _ => ⟨rfl, rfl⟩, nofun, nofun⟩
  have halways := Runs.always_of_everyStep
    (fun (s : PlacedSession) move (h : OrderlyPlaces s) hroom => OrderlyPlaces.mk (h.sound.step move hroom) (h.placed.step h.sound move hroom))
    hstart moves hroom
  exact halways moves [] (List.append_nil _).symm

/-- What setting a variable to every text needs. -/
theorem settable_of_sets (hstrings : ∀ s, ∃ text, newValue parseJson text = .string s) {s : PlacedSession} (h : OrderlyPlaces s) {varRef : Nat}
    {o : Origin} (ho : s.origins varRef = some o) {v : Value} (hshown : s.server.shownValue varRef = some v) {x : DapVariable}
    {path start : List PathStep} (hx : (x, path) ∈ (s.server.handleVariables varRef).1.zip (childPaths v)) (hstart : o.start = some start)
    (hsets : ∀ text, SetsTo parseJson s.server varRef x.name text (start ++ o.path ++ path)) : Settable s.server varRef o path := by
  have hlisted : (s.server.handleVariables varRef).1 ≠ [] := by
    intro hnil
    rw [hnil] at hx
    cases hx
  obtain ⟨p, hp, hlist⟩ := exists_listing hshown hlisted
  have hindex : 1 ≤ p.varRefIndex := by
    have hcount := (h.sound.numbered _ p hp).1
    omega
  -- a text that is not in the place yet
  obtain ⟨fresh, hfresh⟩ : ∃ fresh, p.state.getAt (start ++ o.path ++ path) ≠ some (.string fresh) := by
    by_cases hempty : p.state.getAt (start ++ o.path ++ path) = some (.string "")
    · exact ⟨"x", by rw [hempty]; simp⟩
    · exact ⟨"", hempty⟩
  obtain ⟨text, htext⟩ := hstrings fresh
  obtain ⟨hsome, state, hput, hset⟩ := (setsTo_iff h.placed ho hp hindex hlist).mp (hsets text)
  obtain ⟨path', hread, hput'⟩ := setTokens_eq_some_iff.mp hset
  rw [htext] at hput hput'
  obtain rfl := Value.putAt_unique hput hput' hfresh
  have hlength := hread.length_eq
  simp only [List.length_append, List.length_map, List.length_singleton] at hlength
  obtain ⟨c, hshows, hpart⟩ := exists_between (handsOut_listing hp hlist.symm).2 (partAt_children v) hx
  have hone : ∀ step, path = [step] → start = [] ∧ (∀ i, .item i ∈ o.path → i < 2 ^ 64) ∧ step.ReadBy x.name := by
    rintro step rfl
    obtain rfl : start = [] := List.length_eq_zero_iff.mp (by simp only [List.length_singleton] at hlength; omega)
    have hnames : (o.path.map PathStep.name).length = o.path.length := List.length_map ..
    have hway := List.forall₂_take_append _ _ _ hread
    have hlast := List.forall₂_drop_append _ _ _ hread
    rw [List.nil_append, List.take_left' hnames] at hway
    rw [List.nil_append, List.drop_left' hnames, List.forall₂_cons] at hlast
    exact ⟨rfl, forall₂_readBy_name.mp hway, hlast.1⟩
  cases hpart with
  | member key w =>
    obtain ⟨rfl, hindices, -⟩ := hone _ rfl
    exact ⟨hstart, fun he hnil => hsome ⟨he, hnil⟩, ⟨key, rfl⟩, ⟨p, hp, Value.isSome_getAt_of_putAt hput⟩, hindices⟩
  | item i w =>
    obtain ⟨-, -, hname⟩ := hone _ rfl
    rw [hshows.name, PathStep.ReadBy, parseIndex_bracket] at hname
    cases hname
  | whole hwhole =>
    -- only the state itself is listed whole, and what begins with it has no start to add
    have hv := not_complex_of_whole (List.of_mem_zip hx).2
    have hroot : varRef % varRefStride = 1 := by
      by_contra hne
      rw [VarServer.shownValue, if_neg hne] at hshown
      rw [h.placed.complex varRef v hshown] at hv
      cases hv
    rw [h.placed.root varRef o ho hroot] at hstart
    obtain rfl : start = [] := (Option.some.inj hstart).symm
    simp at hlength

/-- Setting a listed variable to every text replaces what was listed, and nothing else, exactly when the variable is a member of an object
that was reached from the state and is still there. -/
theorem setVariable_law_iff (parseJson : String → Option Value) (evaluate : String → Value → Except String Value)
    (selects : String → Value → Option (List PathStep)) (hstrings : ∀ s, ∃ text, newValue parseJson text = .string s)
    (moves : List VarMove)
    (hroom : Runs.EveryStep (PlacedSession.step parseJson evaluate selects) (fun s => HasRoom parseJson evaluate s.toVarSession) {} moves)
    {s : PlacedSession} (hs : s = Runs.after (PlacedSession.step parseJson evaluate selects) {} moves) {varRef : Nat} {o : Origin}
    (ho : s.origins varRef = some o) {v : Value} (hshown : s.server.shownValue varRef = some v) {x : DapVariable} {path : List PathStep}
    (hx : (x, path) ∈ (s.server.handleVariables varRef).1.zip (childPaths v)) :
    (∃ start, o.start = some start ∧ ∀ text, SetsTo parseJson s.server varRef x.name text (start ++ o.path ++ path)) ↔
      Settable s.server varRef o path := by
  have h : OrderlyPlaces s := hs ▸ orderly_after hroom
  constructor
  · rintro ⟨start, hstart, hsets⟩
    exact settable_of_sets hstrings h ho hshown hx hstart hsets
  · intro hset
    obtain ⟨p, hp, hthere⟩ := hset.there
    obtain ⟨key, rfl⟩ := hset.member
    have hlisted : (s.server.handleVariables varRef).1 ≠ [] := by
      intro hnil
      rw [hnil] at hx
      cases hx
    obtain ⟨q, hq, hlist⟩ := exists_listing hshown hlisted
    obtain rfl : p = q := Option.some.inj (hp.symm.trans hq)
    have hindex : 1 ≤ p.varRefIndex := by
      have hcount := (h.sound.numbered _ p hp).1
      omega
    obtain ⟨c, hshows, hpart⟩ := exists_between (handsOut_listing hp hlist.symm).2 (partAt_children v) hx
    have hname : x.name = key := by
      cases hpart
      exact hshows.name
    refine ⟨[], hset.start, fun text => (setsTo_iff h.placed ho hp hindex hlist).mpr ⟨fun hnone => hset.expanded hnone.1 hnone.2, ?_⟩⟩
    obtain ⟨state, hput⟩ := Value.exists_putAt (newValue parseJson text) hthere
    refine ⟨state, hput, setTokens_eq_some_iff.mpr ⟨o.path ++ [.member key], ?_, hput⟩⟩
    exact List.rel_append (forall₂_readBy_name.mpr hset.indices) (.cons hname.symm .nil)

/-- Every string has a JSON text. -/
theorem newValue_quote (s : String) : ∃ text, newValue JsonText.fromStr text = .string s :=
  ⟨Value.quote s, by rw [newValue, JsonText.fromStr_quote, Option.getD_some]⟩

/-- A member of the state of a thread is set. -/
theorem setVariable_law_member :
    let server : VarServer := (Runs.after (PlacedSession.step JsonText.fromStr (fun _ v => .ok v) fun _ _ => none) {}
      [.pause 1 (.object [("a", .null)]), .request (.scopes 10000)]).server
    ∀ text, SetsTo JsonText.fromStr server 100001 "a" text [.member "a"] := by
  intro server
  have hroom : Runs.EveryStep (PlacedSession.step JsonText.fromStr (fun _ v => .ok v) fun _ _ => none)
      (fun s => HasRoom JsonText.fromStr (fun _ v => .ok v) s.toVarSession) {}
      [.pause 1 (.object [("a", .null)]), .request (.scopes 10000)] :=
    Runs.everyStep_cons.mpr ⟨trivial, Runs.everyStep_cons.mpr ⟨fun hpos => absurd hpos (by decide), Runs.everyStep_nil _ _⟩⟩
  have hlaw := @setVariable_law_iff JsonText.fromStr (fun _ v => .ok v) (fun _ _ => none) newValue_quote _ hroom _ rfl 100001
    .scope rfl (.object [("a", .null)]) rfl ⟨"a", .null, 0⟩ [.member "a"] (List.mem_singleton.mpr rfl)
  obtain ⟨start, hstart, hsets⟩ := hlaw.mpr
    ⟨rfl, nofun, ⟨"a", rfl⟩, ⟨⟨.object [("a", .null)], 1⟩, rfl, rfl⟩, nofun⟩
  obtain rfl : start = [] := (Option.some.inj hstart).symm
  exact hsets

/-- An item of the state of a thread is not: it is listed under its index in brackets, and no pointer has such a token. -/
theorem item_not_set :
    ¬ ∀ (parseJson : String → Option Value) (evaluate : String → Value → Except String Value)
      (selects : String → Value → Option (List PathStep)), (∀ s, ∃ text, newValue parseJson text = .string s) →
      ∀ (moves : List VarMove) (s : PlacedSession), s = Runs.after (PlacedSession.step parseJson evaluate selects) {} moves →
      ∀ (varRef : Nat) (o : Origin), s.origins varRef = some o → ∀ v, s.server.shownValue varRef = some v →
      ∀ (x : DapVariable) (path : List PathStep), (x, path) ∈ (s.server.handleVariables varRef).1.zip (childPaths v) →
      ∃ start, o.start = some start ∧ ∀ text, SetsTo parseJson s.server varRef x.name text (start ++ o.path ++ path) := by
  intro h
  have hroom : Runs.EveryStep (PlacedSession.step JsonText.fromStr (fun _ v => .ok v) fun _ _ => none)
      (fun s => HasRoom JsonText.fromStr (fun _ v => .ok v) s.toVarSession) {}
      [.pause 1 (.array [.null]), .request (.scopes 10000)] :=
    Runs.everyStep_cons.mpr ⟨trivial, Runs.everyStep_cons.mpr ⟨fun hpos => absurd hpos (by decide), Runs.everyStep_nil _ _⟩⟩
  obtain ⟨start, hstart, hsets⟩ := h JsonText.fromStr (fun _ v => .ok v) (fun _ _ => none) newValue_quote
    [.pause 1 (.array [.null]), .request (.scopes 10000)] _ rfl 100001 .scope rfl (.array [.null]) rfl ⟨"[0]", .null, 0⟩ [.item 0]
    (List.mem_singleton.mpr rfl)
  have hset := settable_of_sets newValue_quote (orderly_after hroom) rfl rfl (List.mem_singleton.mpr rfl) hstart hsets
  obtain ⟨key, hkey⟩ := hset.member
  cases hkey

end Session

end WebPipe
