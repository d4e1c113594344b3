import WebPipe.Testing.Mocks

/-!
# Scoped mocks

When a step that refers to `ns::name` is answered by the mock declared for exactly that target, whatever order the table of
mocks is enumerated in. The lookup does not see the reference: it sees the result name in the state, the variable's bare name
where the step was named for its variable. A mock of the bare name comes before every scoped one, and of the scoped mocks that
end in that name the first of the enumeration answers, whatever its alias.
-/

namespace WebPipe

open IndexMap HashTable

/-! ## The mocks of a test -/

section Tests

variable {evaluateJqInput : String → Object → Except WebPipeError Value}

/-- A mock for a variable of a middleware is in the tables. -/
def MockResolver.Mocked (mocks : MockResolver) (middleware varName : String) : Prop :=
  ∃ v, mocks.variableMocks.get (middleware, varName) = some v

/-- A mock names a variable of a middleware: what stands before its first dot, and what stands behind it. -/
def Mock.Targets (m : Mock) (middleware varName : String) : Prop :=
  Text.splitOnce "." m.target = some (middleware, varName) ∧ middleware ≠ "pipeline"

/-- Nothing is mocked at first. -/
theorem mocked_empty (middleware varName : String) : ¬MockResolver.empty.Mocked middleware varName := by
  rintro ⟨v, h⟩
  cases h

/-- A mock adds its target to what is mocked. -/
theorem mocked_insertMock {mocks : MockResolver} {m : Mock} {value : Value} {middleware varName : String} :
    (mocks.insertMock m.target value).Mocked middleware varName ↔ m.Targets middleware varName ∨ mocks.Mocked middleware varName := by
  unfold MockResolver.insertMock MockResolver.Mocked Mock.Targets
  cases Text.splitOnce "." m.target with
  | none => simp
  | some p =>
    obtain ⟨left, right⟩ := p
    dsimp only
    split
    · rename_i hleft
      constructor
      · exact Or.inr
      · rintro (⟨hp, hne⟩ | h)
        · cases hp
          exact absurd hleft hne
        · exact h
    · rename_i hleft
      simp only [HashTable.get_insert]
      by_cases h : (middleware, varName) = (left, right)
      · obtain ⟨rfl, rfl⟩ := Prod.mk.inj h
        simp [hleft]
      · have hother : ¬(left, right) = (middleware, varName) := fun e => h e.symm
        simp [h, hother]

/-- What is mocked is what the declared mocks target. -/
theorem mocked_fromMocks {declared : List Mock} {ctx : Object} {mocks resolver : MockResolver}
    (h : declared.foldlM (fun resolver m => do
      let value ← evaluateJqInput m.returnValue ctx
      pure (resolver.insertMock m.target value)) resolver = .ok mocks) (middleware varName : String) :
    mocks.Mocked middleware varName ↔ (∃ m ∈ declared, m.Targets middleware varName) ∨ resolver.Mocked middleware varName := by
  induction declared generalizing resolver with
  | nil =>
    cases h
    simp
  | cons m declared ih =>
    rw [List.foldlM_cons] at h
    cases hvalue : evaluateJqInput m.returnValue ctx with
    | error e =>
      rw [hvalue] at h
      cases h
    | ok value =>
      rw [hvalue] at h
      rw [ih h, mocked_insertMock]
      simp only [List.mem_cons, exists_eq_or_imp]
      rw [or_left_comm, or_assoc]

/-- The tables of a test hold the targets that it and its `describe` block declare, and no others. -/
theorem mocked_testMocks {describe test : List Mock} {describeCtx variablesCtx : Object} {mocks : MockResolver}
    (h : testMocks evaluateJqInput describe describeCtx test variablesCtx = .ok mocks) (middleware varName : String) :
    mocks.Mocked middleware varName ↔ ∃ m ∈ describe ++ test, m.Targets middleware varName := by
  unfold testMocks at h
  cases hdescribe : MockResolver.fromMocks evaluateJqInput describe describeCtx with
  | error e =>
    rw [hdescribe] at h
    cases h
  | ok describeMocks =>
    rw [hdescribe] at h
    cases htest : MockResolver.fromMocks evaluateJqInput test variablesCtx with
    | error e =>
      rw [htest] at h
      cases h
    | ok ownMocks =>
      rw [htest] at h
      cases h
      have hfirst := mocked_fromMocks hdescribe middleware varName
      have hsecond := mocked_fromMocks htest middleware varName
      simp only [mocked_empty, or_false] at hfirst hsecond
      have hoverlay : (describeMocks.overlay ownMocks).Mocked middleware varName ↔
          ownMocks.Mocked middleware varName ∨ describeMocks.Mocked middleware varName := by
        unfold MockResolver.Mocked MockResolver.overlay
        simp only [HashTable.get_extend]
        cases ownMocks.variableMocks.get (middleware, varName) <;> simp
      simp only [hoverlay, hfirst, hsecond, List.mem_append, or_and_right, exists_or]
      exact or_comm

end Tests

/-! ## What a lookup sees -/

section Steps

variable {σ : Type} {env : ExecutionEnv σ} {mocks : MockResolver} {s : RegularStep} {state : Value} {ns name : String}

/-- The name the lookup sees: the result name in the state, or the name of the step's variable where the state has none. -/
def calledName (env : ExecutionEnv σ) (s : RegularStep) (state : Value) : Option String :=
  match state with
  | .object members =>
    match IndexMap.get members "resultName" with
    | some v => v.asStr
    | none => (referencedVariable env s.location (effectiveName env s) (rawConfig env s)).map Variable.name
  | _ => none

/-- The name of a call is the result name of its input. -/
theorem calledName_eq : calledName env s state =
    ((resolveConfigAndAutoname env s.location (effectiveName env s) (rawConfig env s) state).2.1.get "resultName").bind
      Value.asStr := by
  unfold calledName resolveConfigAndAutoname
  cases referencedVariable env s.location (effectiveName env s) (rawConfig env s) with
  | none =>
    cases state with
    | object members => cases hget : IndexMap.get members "resultName" <;> simp [Value.get, Value.asObject, hget]
    | _ => rfl
  | some var =>
    cases state with
    | object members =>
      cases hget : IndexMap.get members "resultName" <;> simp [Value.get, Value.asObject, Value.asStr, hget]
    | _ => rfl

/-- A call is answered by the mock of its variable, or by that of its middleware. -/
theorem answer_eq (hcalls : callsMiddleware env s = true) : mocks.answer env s state =
    ((calledName env s state).bind (mocks.variableMock (effectiveName env s))).or
      ((mocks.middlewareMocks.get (effectiveName env s)).map fun v => (.middleware (effectiveName env s), v)) := by
  rw [MockResolver.answer, if_pos hcalls, MockResolver.getMiddlewareMock, ← calledName_eq]

/-! ## Scopes -/

/-- The text of a reference. -/
def scopedName (ns name : String) : String := ns ++ "::" ++ name

/-- An identifier has no colon. -/
theorem colon_not_mem {part : String} (h : isValidIdentifierPart part = true) : ':' ∉ part.toList := by
  unfold isValidIdentifierPart at h
  cases hpart : part.toList with
  | nil => simp
  | cons first rest =>
    rw [hpart] at h
    simp only [Bool.and_eq_true, Bool.or_eq_true, List.all_eq_true, decide_eq_true_eq] at h
    intro hmem
    rcases List.mem_cons.mp hmem with rfl | hmem
    · exact absurd h.1 (by decide)
    · exact absurd (h.2 _ hmem) (by decide)

/-- The name of a reference holds no scope of its own. -/
theorem colon_not_mem_of_reference {text : String} (href : parseScopedRef text = (some ns, name)) : ':' ∉ name.toList := by
  unfold parseScopedRef at href
  split at href
  · split at href
    · rename_i hvalid
      cases href
      simp only [Bool.and_eq_true] at hvalid
      exact colon_not_mem hvalid.2
    · cases href
  · cases href

/-- The scope of a reference is its alias. -/
theorem scopeOf_scopedName (hname : ':' ∉ name.toList) : MockResolver.scopeOf (scopedName ns name) = some (ns, name) := by
  have hreverse : (scopedName ns name).toList.reverse = name.toList.reverse ++ [':', ':'] ++ ns.toList.reverse := by
    simp [scopedName]
  unfold MockResolver.scopeOf
  rw [hreverse, Text.splitOnceChars_append (by simpa using hname)]
  simp

/-- A mocked name is one of another alias. -/
def OfAnother (ns mockVarName : String) : Prop := ∃ p, MockResolver.scopeOf mockVarName = some p ∧ p.1 ≠ ns

/-- A mocked name ends in a name. -/
def EndsIn (name mockVarName : String) : Prop := (MockResolver.scopeOf mockVarName).map Prod.snd = some name

/-- The entries a scoped search stops at. -/
def matchesName (middleware name : String) (e : (String × String) × Value) : Bool :=
  decide (e.1.1 = middleware) && decide ((MockResolver.scopeOf e.1.2).map Prod.snd = some name)

/-- An entry matches a name exactly when it is of the middleware and ends in the name. -/
theorem matchesName_iff {middleware name : String} {e : (String × String) × Value} :
    matchesName middleware name e = true ↔ e.1.1 = middleware ∧ EndsIn name e.1.2 := by
  simp [matchesName, EndsIn]

/-- A variable is mocked exactly when the table has an entry for it. -/
theorem mocked_iff {middleware varName : String} :
    mocks.Mocked middleware varName ↔ ∃ v, ((middleware, varName), v) ∈ mocks.variableMocks.entries := by
  unfold MockResolver.Mocked
  simp only [HashTable.get_eq_some_iff]

/-- A mocked variable is answered by its own mock. -/
theorem variableMock_of_mocked {middleware varName : String} {v : Value}
    (h : mocks.variableMocks.get (middleware, varName) = some v) :
    mocks.variableMock middleware varName = some (.variable middleware varName, v) := by
  rw [MockResolver.variableMock, h]

/-- Any other is answered by the first entry that ends in its name. -/
theorem variableMock_of_not_mocked {middleware varName : String} (h : ¬mocks.Mocked middleware varName) :
    mocks.variableMock middleware varName =
      (mocks.variableMocks.entries.find? (matchesName middleware varName)).map fun e => (.variable e.1.1 e.1.2, e.2) := by
  have hnone : mocks.variableMocks.get (middleware, varName) = none := by
    cases hget : mocks.variableMocks.get (middleware, varName) with
    | none => rfl
    | some v => exact absurd ⟨v, hget⟩ h
  rw [MockResolver.variableMock, hnone]
  rfl

/-! ## Orders -/

/-- The same mocks, enumerated in another order. -/
structure MockResolver.Reorders (mocks mocks' : MockResolver) : Prop where
  middlewareMocks : HashTable.Reorders mocks.middlewareMocks mocks'.middlewareMocks
  variableMocks : HashTable.Reorders mocks.variableMocks mocks'.variableMocks
  pipelineMocks : HashTable.Reorders mocks.pipelineMocks mocks'.pipelineMocks

theorem MockResolver.Reorders.refl (mocks : MockResolver) : mocks.Reorders mocks :=
  ⟨HashTable.Reorders.refl _, HashTable.Reorders.refl _, HashTable.Reorders.refl _⟩

/-- The order of the table does not change what is mocked. -/
theorem MockResolver.Reorders.mocked_iff {mocks' : MockResolver} (h : mocks'.Reorders mocks) (middleware varName : String) :
    mocks'.Mocked middleware varName ↔ mocks.Mocked middleware varName := by
  unfold MockResolver.Mocked
  rw [h.variableMocks.get_eq]

/-- A step that refers to `ns::name` is answered by the mock declared for that target; without one it is answered by no other
alias's mock; and the order of the table does not matter. -/
structure HitsOwnMock (env : ExecutionEnv σ) (mocks : MockResolver) (s : RegularStep) (state : Value) (ns name : String) :
    Prop where
  own : ∀ mocks', MockResolver.Reorders mocks' mocks → ∀ v,
    mocks.variableMocks.get (effectiveName env s, scopedName ns name) = some v →
      mocks'.answer env s state = some (.variable (effectiveName env s) (scopedName ns name), v)
  others : ¬mocks.Mocked (effectiveName env s) (scopedName ns name) → ∀ mocks', MockResolver.Reorders mocks' mocks →
    ∀ middleware mockVarName v, mocks'.answer env s state = some (.variable middleware mockVarName, v) →
      ¬OfAnother ns mockVarName
  stable : ∀ mocks', MockResolver.Reorders mocks' mocks → mocks'.answer env s state = mocks.answer env s state

/-- Nothing comes before the step's own mock: the lookup sees the reference itself, or it sees the bare name and the own mock is
the only one for it. -/
def OwnFirst (env : ExecutionEnv σ) (mocks : MockResolver) (s : RegularStep) (state : Value) (ns name : String) : Prop :=
  calledName env s state = some (scopedName ns name) ∨
    calledName env s state = some name ∧ ¬mocks.Mocked (effectiveName env s) name ∧
      ∀ other, mocks.Mocked (effectiveName env s) other → EndsIn name other → other = scopedName ns name

/-- No mock of another alias is in reach: none is the name that the lookup sees, and none ends in it unless that very name is
mocked. -/
def OthersOutOfReach (env : ExecutionEnv σ) (mocks : MockResolver) (s : RegularStep) (state : Value) (ns : String) : Prop :=
  ∀ called, calledName env s state = some called →
    (mocks.Mocked (effectiveName env s) called → ¬OfAnother ns called) ∧
      (¬mocks.Mocked (effectiveName env s) called →
        ∀ other, mocks.Mocked (effectiveName env s) other → EndsIn called other → ¬OfAnother ns other)

/-! ## The answer -/

/-- A name that is mocked as it stands answers in every order. -/
theorem answer_of_mocked {mocks' : MockResolver} (h : mocks'.Reorders mocks) {called : String} {v : Value}
    (hcalls : callsMiddleware env s = true) (hcalled : calledName env s state = some called)
    (hget : mocks.variableMocks.get (effectiveName env s, called) = some v) :
    mocks'.answer env s state = some (.variable (effectiveName env s) called, v) := by
  rw [answer_eq hcalls, hcalled, Option.bind_some, variableMock_of_mocked (by rw [h.variableMocks.get_eq, hget]), Option.some_or]

/-- For any other name the first scoped mock that ends in it answers. -/
theorem answer_of_not_mocked {called : String} (hcalls : callsMiddleware env s = true)
    (hcalled : calledName env s state = some called) (hnot : ¬mocks.Mocked (effectiveName env s) called)
    {middleware k : String} {v : Value} :
    mocks.answer env s state = some (.variable middleware k, v) ↔
      mocks.variableMocks.entries.find? (matchesName (effectiveName env s) called) = some ((middleware, k), v) := by
  rw [answer_eq hcalls, hcalled, Option.bind_some, variableMock_of_not_mocked hnot]
  cases mocks.variableMocks.entries.find? (matchesName (effectiveName env s) called) with
  | none => cases mocks.middlewareMocks.get (effectiveName env s) <;> simp
  | some e =>
    obtain ⟨⟨middleware', k'⟩, v'⟩ := e
    simp [and_assoc]

/-- Without a name in the state no variable's mock answers. -/
theorem answer_of_unnamed (hcalls : callsMiddleware env s = true) (hcalled : calledName env s state = none)
    (middleware k : String) (v : Value) : mocks.answer env s state ≠ some (.variable middleware k, v) := by
  rw [answer_eq hcalls, hcalled, Option.bind_none, Option.none_or]
  cases mocks.middlewareMocks.get (effectiveName env s) <;> simp

/-- The mocks with another table of variables. -/
def MockResolver.withVariables (mocks : MockResolver) (table : HashTable (String × String) Value) : MockResolver :=
  { mocks with variableMocks := table }

/-- Another order of the table is another order of the mocks. -/
theorem reorders_withVariables {table : HashTable (String × String) Value} (h : HashTable.Reorders table mocks.variableMocks) :
    (mocks.withVariables table).Reorders mocks :=
  ⟨HashTable.Reorders.refl _, h, HashTable.Reorders.refl _⟩

theorem not_mocked_withVariables {table : HashTable (String × String) Value}
    (h : HashTable.Reorders table mocks.variableMocks) {middleware varName : String} (hnot : ¬mocks.Mocked middleware varName) :
    ¬(mocks.withVariables table).Mocked middleware varName :=
  fun hmocked => hnot (((reorders_withVariables h).mocked_iff _ _).mp hmocked)

/-- A name that is split at its last `::` is put together again. -/
theorem scopedName_of_scopeOf {k : String} {p : String × String} (h : MockResolver.scopeOf k = some p) : k = scopedName p.1 p.2 := by
  unfold MockResolver.scopeOf at h
  obtain ⟨⟨x, y⟩, hsplit, rfl⟩ := Option.map_eq_some_iff.mp h
  have hk := congrArg List.reverse (Text.splitOnceChars_eq_some_iff.mp hsplit).1
  apply String.toList_inj.mp
  simp only [List.reverse_reverse, List.reverse_append] at hk
  simp [scopedName, hk]

/-- Where the scoped mocks that end in a name share their alias there is only one. -/
theorem unique_of_not_another {called : String}
    (h : ∀ other, mocks.Mocked (effectiveName env s) other → EndsIn called other → ¬OfAnother ns other) :
    ∀ e ∈ mocks.variableMocks.entries, matchesName (effectiveName env s) called e = true →
      ∀ e' ∈ mocks.variableMocks.entries, matchesName (effectiveName env s) called e' = true → e' = e := by
  have hkey : ∀ e ∈ mocks.variableMocks.entries, matchesName (effectiveName env s) called e = true →
      e.1 = (effectiveName env s, scopedName ns called) := by
    rintro ⟨⟨middleware, k⟩, v⟩ he hmatch
    obtain ⟨hmiddleware, hends⟩ := matchesName_iff.mp hmatch
    dsimp only at hmiddleware hends
    subst hmiddleware
    obtain ⟨p, hp, hcalled⟩ := Option.map_eq_some_iff.mp hends
    have hns : p.1 = ns := by
      by_contra hne
      exact h k (mocked_iff.mpr ⟨v, he⟩) hends ⟨p, hp, hne⟩
    rw [scopedName_of_scopeOf hp, hns, hcalled]
  intro e he hmatch e' he' hmatch'
  have hsame : e'.1 = e.1 := (hkey e' he' hmatch').trans (hkey e he hmatch).symm
  have hvalue := HashTable.get_eq_some_iff.mpr he
  rw [← hsame, HashTable.get_eq_some_iff.mpr he'] at hvalue
  exact Prod.ext hsame (Option.some.inj hvalue)

/-- A step's own mock answers in every order exactly when nothing comes before it. -/
theorem own_iff {v : Value} (href : parseScopedRef (rawConfig env s) = (some ns, name))
    (hget : mocks.variableMocks.get (effectiveName env s, scopedName ns name) = some v) :
    (∀ mocks', MockResolver.Reorders mocks' mocks →
      mocks'.answer env s state = some (.variable (effectiveName env s) (scopedName ns name), v)) ↔
      callsMiddleware env s = true ∧ OwnFirst env mocks s state ns name := by
  have hmem := HashTable.get_eq_some_iff.mp hget
  have hscope := @scopeOf_scopedName ns name (colon_not_mem_of_reference href)
  constructor
  · intro h
    have hself := h mocks (.refl mocks)
    have hcalls : callsMiddleware env s = true := by
      by_contra hcalls
      rw [MockResolver.answer, if_neg hcalls] at hself
      cases hself
    refine ⟨hcalls, ?_⟩
    cases hcalled : calledName env s state with
    | none => exact absurd hself (answer_of_unnamed hcalls hcalled _ _ _)
    | some called =>
      by_cases hmocked : mocks.Mocked (effectiveName env s) called
      · obtain ⟨v', hget'⟩ := hmocked
        have hanswer := answer_of_mocked (.refl mocks) hcalls hcalled hget'
        rw [hself] at hanswer
        injection (Option.some.inj hanswer) with htarget _
        injection htarget with _ hname
        exact Or.inl (by rw [hcalled, hname])
      · -- the search stops at the own mock in every order, so it is the only one it can stop at
        have hfind := (answer_of_not_mocked hcalls hcalled hmocked).mp hself
        have hends := (matchesName_iff.mp (List.find?_some hfind)).2
        have hname : name = called := by
          rw [EndsIn, hscope] at hends
          exact Option.some.inj hends
        subst hname
        have hall := (forall_find_eq_iff hmem (List.find?_some hfind)).mp fun t ht =>
          (answer_of_not_mocked hcalls hcalled (not_mocked_withVariables ht hmocked)).mp (h _ (reorders_withVariables ht))
        refine Or.inr ⟨hcalled, hmocked, ?_⟩
        intro other hother hends'
        obtain ⟨w, hw⟩ := mocked_iff.mp hother
        have heq := hall _ hw (matchesName_iff.mpr ⟨rfl, hends'⟩)
        exact congrArg (fun e => e.1.2) heq
  · rintro ⟨hcalls, hcalled | ⟨hcalled, hnot, honly⟩⟩ mocks' h
    · exact answer_of_mocked h hcalls hcalled hget
    · have hnot' : ¬mocks'.Mocked (effectiveName env s) name := fun hm => hnot ((h.mocked_iff _ _).mp hm)
      refine (answer_of_not_mocked hcalls hcalled hnot').mpr ?_
      have hends : EndsIn name (scopedName ns name) := by rw [EndsIn, hscope]; rfl
      refine (forall_find_eq_iff hmem (matchesName_iff.mpr ⟨rfl, hends⟩)).mpr ?_ _ h.variableMocks
      rintro ⟨⟨middleware, k⟩, w⟩ he hmatch
      obtain ⟨hmiddleware, hends'⟩ := matchesName_iff.mp hmatch
      dsimp only at hmiddleware hends'
      subst hmiddleware
      obtain rfl := honly k (mocked_iff.mpr ⟨w, he⟩) hends'
      have hw := HashTable.get_eq_some_iff.mpr he
      rw [hget] at hw
      rw [Option.some.inj hw]

/-- No mock of another alias answers in any order exactly when none is in reach. -/
theorem others_iff (hcalls : callsMiddleware env s = true) :
    (∀ mocks', MockResolver.Reorders mocks' mocks → ∀ middleware mockVarName v,
      mocks'.answer env s state = some (.variable middleware mockVarName, v) → ¬OfAnother ns mockVarName) ↔
      OthersOutOfReach env mocks s state ns := by
  constructor
  · intro h called hcalled
    constructor
    · rintro ⟨v, hget⟩
      exact h mocks (.refl mocks) _ _ v (answer_of_mocked (.refl mocks) hcalls hcalled hget)
    · intro hnot other hother hends
      obtain ⟨v, hv⟩ := mocked_iff.mp hother
      have hall : ∀ e ∈ mocks.variableMocks.entries, matchesName (effectiveName env s) called e = true →
          ¬OfAnother ns e.1.2 := by
        refine (@forall_find_iff (String × String) Value _ _ fun e => ¬OfAnother ns e.1.2).mp ?_
        rintro table htable ⟨⟨middleware, k⟩, w⟩ hfind
        have hanswer := (answer_of_not_mocked hcalls hcalled (not_mocked_withVariables htable hnot)).mpr hfind
        exact h (mocks.withVariables table) (reorders_withVariables htable) middleware k w hanswer
      exact hall ((effectiveName env s, other), v) hv (matchesName_iff.mpr ⟨rfl, hends⟩)
  · intro h mocks' hreorders middleware mockVarName v hanswer
    cases hcalled : calledName env s state with
    | none => exact absurd hanswer (answer_of_unnamed hcalls hcalled _ _ _)
    | some called =>
      obtain ⟨hexact, hscoped⟩ := h called hcalled
      by_cases hmocked : mocks.Mocked (effectiveName env s) called
      · obtain ⟨w, hget⟩ := hmocked
        rw [answer_of_mocked hreorders hcalls hcalled hget] at hanswer
        injection (Option.some.inj hanswer) with htarget _
        injection htarget with _ hname
        rw [← hname]
        exact hexact ⟨w, hget⟩
      · have hnot : ¬mocks'.Mocked (effectiveName env s) called := fun hm => hmocked ((hreorders.mocked_iff _ _).mp hm)
        have hfind := (answer_of_not_mocked hcalls hcalled hnot).mp hanswer
        obtain ⟨hmiddleware, hends⟩ := matchesName_iff.mp (List.find?_some hfind)
        dsimp only at hmiddleware hends
        subst hmiddleware
        have hmem := (hreorders.variableMocks.mem_iff _).mp (List.mem_of_find?_eq_some hfind)
        exact hscoped hmocked mockVarName (mocked_iff.mpr ⟨v, hmem⟩) hends

/-- Where only one scoped mock can answer the order does not matter. -/
theorem answer_stable {mocks' : MockResolver} (h : mocks'.Reorders mocks)
    (hunique : ∀ called, calledName env s state = some called → ¬mocks.Mocked (effectiveName env s) called →
      ∀ e ∈ mocks.variableMocks.entries, matchesName (effectiveName env s) called e = true →
        ∀ e' ∈ mocks.variableMocks.entries, matchesName (effectiveName env s) called e' = true → e' = e) :
    mocks'.answer env s state = mocks.answer env s state := by
  by_cases hcalls : callsMiddleware env s = true
  · rw [answer_eq hcalls, answer_eq hcalls, h.middlewareMocks.get_eq]
    cases hcalled : calledName env s state with
    | none => rfl
    | some called =>
      by_cases hmocked : mocks.Mocked (effectiveName env s) called
      · obtain ⟨v, hget⟩ := hmocked
        have hget' : mocks'.variableMocks.get (effectiveName env s, called) = some v := by rw [h.variableMocks.get_eq, hget]
        rw [Option.bind_some, Option.bind_some, variableMock_of_mocked hget, variableMock_of_mocked hget']
      · have hmocked' : ¬mocks'.Mocked (effectiveName env s) called := fun hm => hmocked ((h.mocked_iff _ _).mp hm)
        rw [Option.bind_some, Option.bind_some, variableMock_of_not_mocked hmocked, variableMock_of_not_mocked hmocked',
          h.variableMocks.find_eq (hunique called hcalled hmocked)]
  · rw [MockResolver.answer, MockResolver.answer, if_neg hcalls, if_neg hcalls]

/-- A scoped mock hits its own target exactly when nothing else answers to the name that the lookup sees. -/
theorem scoped_mocks_iff (env : ExecutionEnv σ) (mocks : MockResolver) (s : RegularStep) (state : Value)
    (href : parseScopedRef (rawConfig env s) = (some ns, name)) :
    HitsOwnMock env mocks s state ns name ↔
      (mocks.Mocked (effectiveName env s) (scopedName ns name) →
        callsMiddleware env s = true ∧ OwnFirst env mocks s state ns name) ∧
      (¬mocks.Mocked (effectiveName env s) (scopedName ns name) → callsMiddleware env s = true →
        OthersOutOfReach env mocks s state ns) := by
  constructor
  · rintro ⟨hown, hothers, -⟩
    constructor
    · rintro ⟨v, hget⟩
      exact (own_iff href hget).mp fun mocks' h => hown mocks' h v hget
    · intro hnot hcalls
      exact (others_iff hcalls).mp (hothers hnot)
  · rintro ⟨hown, hothers⟩
    refine ⟨?_, ?_, ?_⟩
    · intro mocks' h v hget
      exact (own_iff href hget).mpr (hown ⟨v, hget⟩) mocks' h
    · intro hnot
      by_cases hcalls : callsMiddleware env s = true
      · exact (others_iff hcalls).mpr (hothers hnot hcalls)
      · intro mocks' _ middleware mockVarName v hanswer
        rw [MockResolver.answer, if_neg hcalls] at hanswer
        cases hanswer
    · intro mocks' h
      by_cases hmocked : mocks.Mocked (effectiveName env s) (scopedName ns name)
      · obtain ⟨v, hget⟩ := hmocked
        have hall := (own_iff href hget).mpr (hown ⟨v, hget⟩)
        rw [hall mocks' h, hall mocks (.refl mocks)]
      · by_cases hcalls : callsMiddleware env s = true
        · exact answer_stable h fun called hcalled hnot =>
            unique_of_not_another ((hothers hmocked hcalls called hcalled).2 hnot)
        · rw [MockResolver.answer, MockResolver.answer, if_neg hcalls, if_neg hcalls]

end Steps

/-! ## Two aliases -/

/-- A module that imports two modules, each with a `pg` variable `list`. -/
def aliasEnv : ExecutionEnv Unit where
  registry := fun _ => none
  variableMap := fun module middleware name =>
    if (module = some 1 ∨ module = some 2) ∧ middleware = "pg" ∧ name = "list" then some { name := "list", value := "SELECT 1" }
    else none
  moduleRegistry := fun _ =>
    some { importMap := fun ns => if ns = "teams" then some 1 else if ns = "users" then some 2 else none }

/-- `|> pg: users::list`. -/
def usersStep : RegularStep := { name := "pg", config := "users::list", location := { moduleId := some 0 } }

/-- The step refers to a variable of an imported module. -/
theorem usersStep_reference : parseScopedRef (rawConfig aliasEnv usersStep) = (some "users", "list") := by
  rw [show rawConfig aliasEnv usersStep = "users::list" from rfl]
  decide +kernel

/-- The step is called under the bare name of its variable. -/
theorem usersStep_called : calledName aliasEnv usersStep (.object []) = some "list" := by
  simp only [calledName, IndexMap.get, referencedVariable, usersStep_reference]
  rfl

theorem usersStep_calls : callsMiddleware aliasEnv usersStep = true := by decide +kernel

/-- Mocks of `pg` variables, each returning its own name. -/
def pgMocks (names : List String) (h : names.Nodup) : MockResolver where
  middlewareMocks := .empty
  variableMocks :=
    { entries := names.map fun name => (("pg", name), .string name)
      distinct := by
        unfold IndexMap.Distinct
        rw [List.map_map]
        exact h.map fun a b hab => (Prod.mk.inj hab).2 }
  pipelineMocks := .empty

/-- The mocks of `pg` are those of the names. -/
theorem get_pgMocks {names : List String} (h : names.Nodup) {name : String} {v : Value}
    (hget : (pgMocks names h).variableMocks.get ("pg", name) = some v) : name ∈ names := by
  obtain ⟨name', hmem, heq⟩ := List.mem_map.mp (HashTable.get_eq_some_iff.mp hget)
  cases heq
  exact hmem

/-- Every name has its mock. -/
theorem get_pgMocks_of_mem {names : List String} (h : names.Nodup) {name : String} (hmem : name ∈ names) :
    (pgMocks names h).variableMocks.get ("pg", name) = some (.string name) :=
  HashTable.get_eq_some_iff.mpr (List.mem_map_of_mem hmem)

/-- With no other mock for the name the step gets its own. -/
theorem own_list_mocked : HitsOwnMock aliasEnv (pgMocks ["teams::count", "users::list"] (by decide)) usersStep (.object [])
    "users" "list" := by
  refine (scoped_mocks_iff aliasEnv _ usersStep (.object []) usersStep_reference).mpr ⟨?_, ?_⟩
  · intro _
    refine ⟨usersStep_calls, Or.inr ⟨usersStep_called, ?_, ?_⟩⟩
    · rintro ⟨v, hv⟩
      exact absurd (get_pgMocks _ hv) (by decide)
    · rintro other ⟨v, hv⟩ hends
      rcases List.mem_cons.mp (get_pgMocks _ hv) with rfl | hmem
      · rw [EndsIn, show "teams::count" = scopedName "teams" "count" from rfl, scopeOf_scopedName (by decide)] at hends
        exact absurd hends (by decide)
      · exact List.mem_singleton.mp hmem
  · intro hnot
    exact absurd ⟨_, get_pgMocks_of_mem _ (List.mem_cons_of_mem _ (List.mem_singleton_self "users::list"))⟩ hnot

/-- With the same name mocked under another alias the step can get the other's mock. -/
theorem other_list_answers : ¬HitsOwnMock aliasEnv (pgMocks ["teams::list", "users::list"] (by decide)) usersStep (.object [])
    "users" "list" := by
  intro h
  have hget := @get_pgMocks_of_mem ["teams::list", "users::list"] (by decide) "users::list" (by simp)
  obtain ⟨-, hcalled | ⟨-, -, honly⟩⟩ := (own_iff usersStep_reference hget).mp fun mocks' h' => h.own mocks' h' _ hget
  · rw [usersStep_called] at hcalled
    exact absurd hcalled (by decide)
  · have hends : EndsIn "list" (scopedName "teams" "list") := by
      rw [EndsIn, scopeOf_scopedName (by decide)]
      rfl
    exact absurd (honly _ ⟨_, get_pgMocks_of_mem _ (List.mem_cons_self)⟩ hends) (by decide)

end WebPipe
