import WebPipe.Debugger.Variables
import WebPipe.Lib.Runs

/-!
# Handing out references

What the handlers do to the tables of variables, said once: a thread counts its references up, and each new one is entered for a value.
`answers` has a case for each way a request can end.
-/

namespace WebPipe

open VarServer

/-- A paused thread hands out references for values, one after another. -/
structure HandsOut (server server' : VarServer) (t : Nat) (p : PausedVars) (new : List (Nat × Value)) : Prop where
  paused : server.pausedThreads t = some p
  counted : server'.pausedThreads t = some { p with varRefIndex := p.varRefIndex + new.length }
  others : ∀ u, u ≠ t → server'.pausedThreads u = server.pausedThreads u
  refs : new.map Prod.fst = List.range' (t * varRefStride + p.varRefIndex + 1) new.length
  made : ∀ e ∈ new, server'.variableCache e.1 = some e.2
  cache : ∀ r, r ∉ new.map Prod.fst → server'.variableCache r = server.variableCache r
  pointers : ∀ r, r ∉ new.map Prod.fst → server'.variablePointers r = server.variablePointers r

namespace HandsOut

variable {server server' server'' : VarServer} {t : Nat} {p : PausedVars} {new more : List (Nat × Value)}

theorem nil (h : server.pausedThreads t = some p) : HandsOut server server t p [] where
  paused := h
  counted := h
  others _ _ := rfl
  refs := rfl
  made := nofun
  cache _ _ := rfl
  pointers _ _ := rfl

theorem trans (h : HandsOut server server' t p new)
    (h' : HandsOut server' server'' t { p with varRefIndex := p.varRefIndex + new.length } more) :
    HandsOut server server'' t p (new ++ more) := by
  have hrefs : (new ++ more).map Prod.fst = List.range' (t * varRefStride + p.varRefIndex + 1) (new ++ more).length := by
    have hstart : t * varRefStride + (p.varRefIndex + new.length) + 1 = t * varRefStride + p.varRefIndex + 1 + 1 * new.length := by
      omega
    have hmore := h'.refs
    simp only [hstart] at hmore
    rw [List.map_append, h.refs, hmore, List.length_append, List.range'_append]
  have hdistinct : ((new ++ more).map Prod.fst).Nodup := hrefs ▸ List.nodup_range'
  rw [List.map_append, List.nodup_append] at hdistinct
  refine ⟨h.paused, ?_, fun u hu => (h'.others u hu).trans (h.others u hu), hrefs, ?_, ?_, ?_⟩
  · rw [h'.counted, List.length_append, Nat.add_assoc]
  · intro e he
    rcases List.mem_append.mp he with he | he
    · have hold : e.1 ∉ more.map Prod.fst := fun hmem => hdistinct.2.2 _ (List.mem_map_of_mem he) _ hmem rfl
      rw [h'.cache _ hold, h.made e he]
    · exact h'.made e he
  · intro r hr
    rw [List.map_append, List.mem_append, not_or] at hr
    rw [h'.cache r hr.2, h.cache r hr.1]
  · intro r hr
    rw [List.map_append, List.mem_append, not_or] at hr
    rw [h'.pointers r hr.2, h.pointers r hr.1]

end HandsOut

/-- A new reference for one value, with the pointer to it if there is one. -/
theorem handsOut_allocate {server server' : VarServer} {t : Nat} {p : PausedVars} (h : server.pausedThreads t = some p) {v : Value}
    {pointer : Option (List Char)} {r : Nat} (hnew : server.allocate t v pointer = (r, server')) :
    HandsOut server server' t p [(r, v)] ∧ ∀ ptr, pointer = some ptr → server'.variablePointers r = some ptr := by
  unfold allocate at hnew
  rw [h] at hnew
  obtain ⟨rfl, rfl⟩ := Prod.mk.inj hnew
  have hother : ∀ k, k ∉ [(t * varRefStride + (p.varRefIndex + 1), v)].map Prod.fst → k ≠ t * varRefStride + (p.varRefIndex + 1) := by
    intro k hk he
    exact hk (List.mem_singleton.mpr he)
  refine ⟨⟨h, Function.update_self .., fun u hu => Function.update_of_ne hu .., ?_, ?_, fun k hk => ?_, fun k hk => ?_⟩, ?_⟩
  · simp only [List.map_cons, List.map_nil, List.length_cons, List.length_nil, List.range'_succ, List.range'_zero, Nat.add_assoc]
  · intro e he
    rw [List.mem_singleton.mp he]
    exact Function.update_self ..
  · exact Function.update_of_ne (hother k hk) ..
  · cases pointer with
    | none => rfl
    | some ptr => exact Function.update_of_ne (hother k hk) ..
  · rintro ptr rfl
    exact Function.update_self ..

/-- A variable shows a part; what has parts itself gets a reference, with the pointer to it. -/
structure Shows (server : VarServer) (parentPtr : List Char) (x : DapVariable) (c : Child) : Prop where
  name : x.name = c.name
  shown : x.shown = c.value
  pointer : isComplex c.value = true → server.variablePointers x.variablesReference = some (parentPtr ++ '/' :: c.token)

/-- A listing hands out references for parts that are containers. -/
theorem handedOut_cons (x : DapVariable) (vars : List DapVariable) :
    (VarResponse.listed (x :: vars)).handedOut =
      (if isComplex x.shown then [(x.variablesReference, x.shown)] else []) ++ (VarResponse.listed vars).handedOut := by
  unfold VarResponse.handedOut
  by_cases hx : isComplex x.shown = true <;> simp [hx]

/-- A listing shows every part, and hands out a reference for each that has parts itself. -/
theorem handsOut_listing {server server' : VarServer} {t : Nat} {p : PausedVars} (h : server.pausedThreads t = some p)
    {parentPtr : List Char} {cs : List Child} {vars : List DapVariable}
    (hlist : jsonToVariablesCached t parentPtr cs server = (vars, server')) :
    HandsOut server server' t p (VarResponse.listed vars).handedOut ∧ List.Forall₂ (Shows server' parentPtr) vars cs := by
  induction cs generalizing server p vars with
  | nil =>
    obtain ⟨rfl, rfl⟩ := Prod.mk.inj hlist
    exact ⟨.nil h, .nil⟩
  | cons c cs ih =>
    rw [jsonToVariablesCached] at hlist
    by_cases hc : isComplex c.value = true
    · rw [if_pos hc] at hlist
      rcases hnew : server.allocate t c.value (some (parentPtr ++ '/' :: c.token)) with ⟨r, server₁⟩
      rcases hrest : jsonToVariablesCached t parentPtr cs server₁ with ⟨more, server₂⟩
      simp only [hnew, hrest, Prod.mk.injEq] at hlist
      obtain ⟨rfl, rfl⟩ := hlist
      obtain ⟨hfirst, hpointer⟩ := handsOut_allocate h hnew
      obtain ⟨hmore, hshows⟩ := ih hfirst.counted hrest
      have hkept : r ∉ (VarResponse.listed more).handedOut.map Prod.fst := by
        have hr : r = t * varRefStride + p.varRefIndex + 1 := by simpa [List.range'] using hfirst.refs
        rw [hmore.refs, List.mem_range']
        simp only [List.length_singleton]
        omega
      refine ⟨?_, .cons ⟨rfl, rfl, fun _ => ?_⟩ hshows⟩
      · rw [handedOut_cons, if_pos hc]
        exact hfirst.trans hmore
      · rw [hmore.pointers r hkept]
        exact hpointer _ rfl
    · rw [if_neg hc] at hlist
      rcases hrest : jsonToVariablesCached t parentPtr cs server with ⟨more, server₁⟩
      simp only [hrest, Prod.mk.injEq] at hlist
      obtain ⟨rfl, rfl⟩ := hlist
      obtain ⟨hmore, hshows⟩ := ih h hrest
      refine ⟨?_, .cons ⟨rfl, rfl, fun hcomplex => absurd hcomplex hc⟩ hshows⟩
      rw [handedOut_cons, if_neg hc]
      exact hmore

/-! ## Requests -/

/-- The tables after a change of a part, before a reference is made for the new value. -/
def VarServer.withChange (server : VarServer) (varRef : Nat) (name : String) (new : Value) (p : PausedVars) (state : Value) :
    VarServer :=
  { server with
    pausedThreads := Function.update server.pausedThreads (varRef / varRefStride) (some { p with state := state })
    variableCache := Function.update server.variableCache varRef ((server.variableCache varRef).map (updateContainer name new)) }

/-- The ways a request ends: nothing changes but pointers; references are handed out; a part of the state is changed, and perhaps a
reference to the new value handed out; a thread is resumed. -/
inductive Answers (parseJson : String → Option Value) (server : VarServer) : VarRequest → VarResponse → VarServer → Prop
  | quiet {r : VarRequest} {response : VarResponse} {server' : VarServer} (hpaused : server'.pausedThreads = server.pausedThreads)
      (hcache : server'.variableCache = server.variableCache) (hnone : response.handedOut = [])
      (hkept : ∀ l, r.kept response l = l) : Answers parseJson server r response server'
  | handsOut {r : VarRequest} {response : VarResponse} {server' : VarServer} {p : PausedVars}
      (h : HandsOut server server' r.thread p response.handedOut) (hkept : ∀ l, r.kept response l = l) :
      Answers parseJson server r response server'
  | changed {varRef ref : Nat} {name text : String} {p : PausedVars} {state : Value} {server' : VarServer}
      (hchanged : server.changedState varRef name (newValue parseJson text) = some (p, state))
      (h : HandsOut (server.withChange varRef name (newValue parseJson text) p state) server' (varRef / varRefStride)
        { p with state := state } (VarResponse.value (newValue parseJson text) ref).handedOut) :
      Answers parseJson server (.setVariable varRef name text) (.value (newValue parseJson text) ref) server'
  | resumed (t : Nat) : Answers parseJson server (.resume t) (.resumed (server.resume t).1) (server.resume t).2

/-- Every request is answered in one of these ways. -/
theorem answers (parseJson : String → Option Value) (evaluate : String → Value → Except String Value) (server : VarServer)
    (r : VarRequest) :
    Answers parseJson server r (server.handle parseJson evaluate r).1 (server.handle parseJson evaluate r).2 := by
  cases r with
  | scopes frameId => exact .quiet rfl rfl rfl fun _ => rfl
  | resume t => exact .resumed t
  | listVariables varRef =>
    have hlisting : ∀ p v, server.pausedThreads (varRef / varRefStride) = some p →
        Answers parseJson server (.listVariables varRef)
          (.listed (jsonToVariablesCached (varRef / varRefStride) ((server.variablePointers varRef).getD []) (children v) server).1)
          (jsonToVariablesCached (varRef / varRefStride) ((server.variablePointers varRef).getD []) (children v) server).2 := by
      intro p v hp
      exact .handsOut (handsOut_listing hp rfl).1 fun _ => rfl
    have hnone : Answers parseJson server (.listVariables varRef) (.listed []) server := .quiet rfl rfl rfl fun _ => rfl
    simp only [handle, handleVariables]
    split
    · split
      · next p hp => exact hlisting p p.state hp
      · exact hnone
    · split
      · next v hv =>
        split
        · next p hp => exact hlisting p v hp
        · exact hnone
      · exact hnone
  | setVariable varRef name text =>
    simp only [handle, handleSetVariable]
    cases hchanged : server.changedState varRef name (newValue parseJson text) with
    | none => exact .quiet rfl rfl rfl fun _ => rfl
    | some q =>
      obtain ⟨p, state⟩ := q
      have hp : (server.withChange varRef name (newValue parseJson text) p state).pausedThreads (varRef / varRefStride) =
          some { p with state := state } := Function.update_self ..
      dsimp only
      by_cases hnew : isComplex (newValue parseJson text) = true
      · rw [if_pos hnew]
        rcases hmade : (server.withChange varRef name (newValue parseJson text) p state).allocate (varRef / varRefStride)
          (newValue parseJson text) (server.targetPtr varRef name) with ⟨ref, server'⟩
        have hhands := (handsOut_allocate hp hmade).1
        have hout : (VarResponse.value (newValue parseJson text) ref).handedOut = [(ref, newValue parseJson text)] := if_pos hnew
        rw [← hout] at hhands
        rw [withChange] at hmade
        rw [hmade]
        exact .changed hchanged hhands
      · rw [if_neg hnew]
        have hout : (VarResponse.value (newValue parseJson text) 0).handedOut = [] := if_neg hnew
        refine .changed hchanged ?_
        rw [hout]
        exact .nil hp
  | evaluate frameId expression =>
    have hkept : ∀ v ref l, (VarRequest.evaluate frameId expression).kept (.value v ref) l = l := fun _ _ _ => rfl
    simp only [handle, handleEvaluate]
    cases hp : server.pausedThreads (frameThread frameId) with
    | none => exact .quiet rfl rfl rfl fun _ => rfl
    | some p =>
      dsimp only
      cases evaluate (jqExpression expression) p.state with
      | error e => exact .quiet rfl rfl rfl fun _ => rfl
      | ok v =>
        dsimp only
        by_cases hv : isComplex v = true
        · rw [if_pos hv]
          rcases hmade : server.allocate (frameThread frameId) v none with ⟨ref, server'⟩
          have hhands := (handsOut_allocate hp hmade).1
          have hout : (VarResponse.value v ref).handedOut = [(ref, v)] := if_pos hv
          rw [← hout] at hhands
          exact .handsOut hhands (hkept v ref)
        · rw [if_neg hv]
          have hout : (VarResponse.value v 0).handedOut = [] := if_neg hv
          exact .quiet rfl rfl hout (hkept v 0)

end WebPipe
