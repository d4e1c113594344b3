import WebPipe.Lemmas.Reports
import WebPipe.Lemmas.Saves

/-!
# The content type of a run

The content type that is due is the one reported by the last middleware that wrote the state, at any depth. A report is recorded when
its middleware renders another type than JSON, or when its step is judged the last one of its pipeline; the JSON of a branch is not
recorded at all. `content_type_agrees_iff` is exact about the places of a run where the type recorded is not the one due.
-/

namespace WebPipe

variable {σ : Type} {env : ExecutionEnv σ} {run : RunFn σ}

/-! ## The type that is due -/

mutual

/-- What the last middleware in a step that wrote the state reported. -/
def StepReport.written : StepReport → Option String
  | .middleware writes _ reported _ => if writes then some reported else none
  | .call _ inner => writtenType inner
  | .branch inner => writtenType inner
  | _ => none

/-- What the last middleware in a run that wrote the state reported. -/
def writtenType : List StepReport → Option String
  | [] => none
  | r :: rest => (writtenType rest).or r.written

end

/-- The content type that is due at the end of a run. -/
def dueType (rs : List StepReport) : String := (writtenType rs).getD "application/json"

/-! ## The type that is recorded -/

mutual

/-- The content type after a step, by its reports. -/
def StepReport.typeAfter (current : String) : StepReport → String
  | .middleware _ renders reported last =>
    if (reported ≠ "application/json" ∨ last) ∧ (last ∨ renders) then reported else current
  | .call last inner =>
    if typeFrom "application/json" inner ≠ "application/json" ∨ last then typeFrom "application/json" inner else current
  | .branch inner =>
    if typeFrom "application/json" inner ≠ "application/json" then typeFrom "application/json" inner else current
  | _ => current

/-- The content type after steps, by their reports. -/
def typeFrom (current : String) : List StepReport → String
  | [] => current
  | r :: rest => typeFrom (r.typeAfter current) rest

end

mutual

/-- No error, cache hit or loop over items in a step. -/
def StepReport.plain : StepReport → Bool
  | .call _ inner => allPlain inner
  | .branch inner => allPlain inner
  | .other => false
  | _ => true

/-- No error, cache hit or loop over items in a run, at any depth. -/
def allPlain : List StepReport → Bool
  | [] => true
  | r :: rest => r.plain && allPlain rest

end

/-- The content type that the handler of a step leaves, or returns. -/
def outcomeType : StepOutcome × StepContext → String
  | (.continue, ctx) => ctx.output.contentType
  | (.ret output, _) => output.contentType

/-- Without a cache hit a step goes on, with the metadata of its result. -/
theorem outcomeType_withResult {s : RegularStep} {ctx : StepContext} {result : PipelineOutput} {pipeCtx : PipelineContext}
    {last : Bool} (hhit : pipeCtx.cacheHit = none) :
    outcomeType (withResult env s ctx result pipeCtx last) =
      (updateMetadata ctx.output (effectiveName env s) result.contentType result.statusCode last).contentType := by
  have houtput : (namedContext env s ctx).output = ctx.output := by
    unfold namedContext
    generalize (resolvedStep env s ctx.pipeCtx.state) = resolved
    split_ifs
    · rfl
    · rfl
  have hsaves := applyResultToState_saves env pipeCtx (effectiveName env s) (resultValue s result) (targetOf env s ctx).1 last
  unfold withResult finishRegular
  dsimp only
  rw [houtput]
  unfold resultValue at hsaves
  rw [hsaves.2, hhit]
  rfl

/-- The reports of runs tell what they return. -/
def Tells (Inner : Reporting σ) : Prop :=
  ∀ q input handled w output rs, Inner q input handled w output rs → allPlain rs = true →
    output.contentType = typeFrom "application/json" rs

variable {Inner : Reporting σ}

/-- After a step the type is the one that its report tells. -/
theorem StepReports.contentType (hinner : Tells Inner) {step : PipelineStep} {ctx : StepContext} {w : World σ}
    {out : StepOutcome × StepContext} {r : StepReport} (h : StepReports env run Inner step ctx w out r) (hr : r.plain = true) :
    outcomeType out = r.typeAfter ctx.output.contentType := by
  cases h with
  | passed => rfl
  | middleware htags hsync hname hx hhit hout =>
    rw [← hout, outcomeType_withResult hhit]
    simp [updateMetadata, StepReport.typeAfter, renders, hname]
  | call htags hsync hname hx hhit hq hinput hlog hrun hin hout =>
    rw [← hout, outcomeType_withResult hhit]
    simp [updateMetadata, StepReport.typeAfter, hname, hinner _ _ _ _ _ _ hin hr]
  | hit => cases hr
  | unselected => rfl
  | branch hsel hrun hin =>
    have ht := hinner _ _ _ _ _ _ hin hr
    simp [outcomeType, StepContext.afterBranch, StepReport.typeAfter, ht]
  | resultBranch hb hrun hin =>
    have ht := hinner _ _ _ _ _ _ hin hr
    simp [outcomeType, StepReport.typeAfter, ht]
  | noResult => rfl
  | foreach => cases hr

/-- A step is entered with the metadata that the loop has. -/
theorem enterStep_output {step : PipelineStep} {ctx ctx₁ : StepContext} {w w₁ : World σ}
    (h : Prog.Ends (enterStep env step ctx) w (.ok ctx₁) w₁) : ctx₁.output = ctx.output := by
  obtain ⟨l, h⟩ := h
  unfold enterStep Exec.modifyReq at h
  rw [Prog.modify_bind] at h
  obtain ⟨-, -, -, ⟨message, he⟩ | ⟨state, he⟩⟩ := handleDebuggerBefore_eq_some h
  · cases he
  · cases he
    rfl

/-- After the loop the type is the one that the reports tell. -/
theorem LoopReports.contentType (hinner : Tells Inner) {steps rest : List PipelineStep} {idx : Nat} {s : LoopState} {w : World σ}
    {last : LoopState ⊕ PipelineOutput} {rs : List StepReport} (h : LoopReports env run Inner steps idx rest s w last rs)
    (hrs : allPlain rs = true) : (returned last).contentType = typeFrom s.contentType rs := by
  induction h with
  | nil => rfl
  | skip => cases hrs
  | failed => cases hrs
  | next hs henter hstep hturn hrest ih =>
    obtain ⟨hr, hrest⟩ := Bool.and_eq_true_iff.mp hrs
    have ht := hstep.contentType hinner hr
    rw [enterStep_output henter] at ht
    rw [ih hrest]
    exact congrArg (typeFrom · _) ht
  | ret hs henter hstep hturn =>
    have ht := hstep.contentType hinner (Bool.and_eq_true_iff.mp hrs).1
    rw [enterStep_output henter] at ht
    exact ht

/-- The content type that a run returns is the one its reports tell. -/
theorem RunReports.contentType (n : Nat) : Tells (RunReports env n) := by
  induction n with
  | zero => exact fun _ _ _ _ _ _ h => h.elim
  | succ n ih =>
    rintro q input handled w output rs ⟨last, hloop, rfl⟩ hrs
    exact hloop.contentType ih hrs

/-! ## Where they agree -/

mutual

/-- In the runs inside a step, the type that is recorded is always the one that is due. -/
def StepReport.AgreesInside : StepReport → Prop
  | .call _ inner => AgreesFrom "application/json" "application/json" inner
  | .branch inner => AgreesFrom "application/json" "application/json" inner
  | _ => True

/-- From a point on with the type `current`, where `due` is due, the type that is recorded is always the one that is due: after each
step, and at any depth. -/
def AgreesFrom (current due : String) : List StepReport → Prop
  | [] => current = due
  | r :: rest => current = due ∧ r.AgreesInside ∧ AgreesFrom (r.typeAfter current) (r.written.getD due) rest

end

/-- What is due after a step is recorded at it. A middleware that writes the state is judged last, renders another type than JSON, or
reports the type that is due already; one that does not write it is not judged last and renders nothing. A call of a pipeline that
wrote JSON is judged last, and one of a pipeline that wrote nothing is not. A branch writes no JSON. -/
def StepReport.records (due : String) : StepReport → Bool
  | .middleware true renders reported last => last || (renders && decide (reported ≠ "application/json")) || decide (reported = due)
  | .middleware false renders reported last =>
    (!last && (!renders || decide (reported = "application/json"))) || decide (reported = due)
  | .call last inner =>
    decide (due = "application/json") ||
      match writtenType inner with
      | some reported => last || decide (reported ≠ "application/json")
      | none => !last
  | .branch inner => decide (due = "application/json") || decide (writtenType inner ≠ some "application/json")
  | _ => true

mutual

/-- In the runs inside a step, every step records what is due. -/
def StepReport.recordsInside : StepReport → Bool
  | .call _ inner => recordsFrom "application/json" inner
  | .branch inner => recordsFrom "application/json" inner
  | _ => true

/-- From a point on where `due` is due every step records what is due, at any depth. -/
def recordsFrom (due : String) : List StepReport → Bool
  | [] => true
  | r :: rest => r.records due && r.recordsInside && recordsFrom (r.written.getD due) rest

end

/-- Where the types agree from a point on they agree there. -/
theorem AgreesFrom.head {current due : String} {rs : List StepReport} (h : AgreesFrom current due rs) : current = due := by
  cases rs with
  | nil => exact h
  | cons r rest => exact h.1

/-- Where the types always agree, the last one is the one that is due. -/
theorem AgreesFrom.typeFrom_eq {current due : String} {rs : List StepReport} (h : AgreesFrom current due rs) :
    typeFrom current rs = (writtenType rs).getD due := by
  induction rs generalizing current due with
  | nil => exact h
  | cons r rest ih =>
    rw [typeFrom, ih h.2.2, writtenType]
    cases writtenType rest <;> rfl

/-- When the runs inside a step agree, the step leaves the type that is due if and only if it records it. -/
theorem StepReport.typeAfter_eq_iff {due : String} {r : StepReport} (hr : r.AgreesInside) :
    r.typeAfter due = r.written.getD due ↔ r.records due = true := by
  cases r with
  | silent => simp [typeAfter, written, records]
  | other => simp [typeAfter, written, records]
  | middleware writes renders reported last =>
    cases writes <;> cases renders <;> cases last <;>
      by_cases hjson : reported = "application/json" <;> simp [typeAfter, written, records, hjson, eq_comm]
  | call last inner =>
    have ht := AgreesFrom.typeFrom_eq hr
    cases hw : writtenType inner with
    | none =>
      rw [hw] at ht
      cases last <;> simp [typeAfter, written, records, ht, hw, eq_comm]
    | some reported =>
      rw [hw] at ht
      cases last <;> by_cases hjson : reported = "application/json" <;>
        simp [typeAfter, written, records, ht, hw, hjson]
  | branch inner =>
    have ht := AgreesFrom.typeFrom_eq hr
    cases hw : writtenType inner with
    | none => simp [typeAfter, written, records, ht, hw]
    | some reported =>
      rw [hw] at ht
      by_cases hjson : reported = "application/json" <;> simp [typeAfter, written, records, ht, hw, hjson]

mutual

/-- Inside a step the types agree if and only if everything inside records what is due. -/
theorem StepReport.agreesInside_iff (r : StepReport) : r.AgreesInside ↔ r.recordsInside = true := by
  cases r with
  | call last inner => exact agreesFrom_iff inner "application/json"
  | branch inner => exact agreesFrom_iff inner "application/json"
  | _ => simp [StepReport.AgreesInside, StepReport.recordsInside]

/-- From a point on where the type is the one that is due, it always is if and only if every step records what is due. -/
theorem agreesFrom_iff (rs : List StepReport) (due : String) : AgreesFrom due due rs ↔ recordsFrom due rs = true := by
  cases rs with
  | nil => simp [AgreesFrom, recordsFrom]
  | cons r rest =>
    rw [AgreesFrom, recordsFrom, Bool.and_eq_true_iff, Bool.and_eq_true_iff, ← r.agreesInside_iff]
    constructor
    · rintro ⟨-, hinside, hrest⟩
      have hafter := hrest.head
      rw [hafter] at hrest
      exact ⟨⟨(StepReport.typeAfter_eq_iff hinside).mp hafter, hinside⟩, (agreesFrom_iff rest _).mp hrest⟩
    · rintro ⟨⟨hrecords, hinside⟩, hrest⟩
      have hafter := (StepReport.typeAfter_eq_iff hinside).mpr hrecords
      refine ⟨rfl, hinside, ?_⟩
      rw [hafter]
      exact (agreesFrom_iff rest _).mpr hrest

end

/-- A run that returns, without an error, a cache hit or a loop over items, has the type that is due after each of its steps and at any
depth if and only if every step records what is due; then that is what it returns. The converse is about the steps: the type that is
returned in the end may be due although an earlier step did not record its own, when a later one records what is due again. -/
theorem content_type_agrees_iff (env : ExecutionEnv σ) (n : Nat) (pipeline : Pipeline) (input : Value) (handled : Option String)
    (w w' : World σ) (output : PipelineOutput) (l : List Event)
    (h : executeWithErrorShortCircuit env n pipeline input handled w = some (.ok output, w', l)) :
    (∃ rs, RunReports env n pipeline input handled w output rs) ∧
      ∀ rs, RunReports env n pipeline input handled w output rs → allPlain rs = true →
        output.contentType = typeFrom "application/json" rs ∧
        (AgreesFrom "application/json" "application/json" rs ↔ recordsFrom "application/json" rs = true) ∧
        (recordsFrom "application/json" rs = true → output.contentType = dueType rs) := by
  refine ⟨execute_reports n _ _ _ _ _ _ _ h, fun rs hrs hplain => ?_⟩
  have htype := RunReports.contentType n _ _ _ _ _ _ hrs hplain
  refine ⟨htype, agreesFrom_iff rs _, fun hrecords => ?_⟩
  rw [htype]
  exact ((agreesFrom_iff rs _).mpr hrecords).typeFrom_eq

/-- A template that renders HTML, and a jq that answers with JSON. -/
def templateEnv : ExecutionEnv Unit :=
  { registry := fun name =>
      if name = "handlebars" then
        some (.stateless .render fun _ => .ok ({ contentType := some "text/html" }, .string "<p>hello</p>"))
      else if name = "jq" then some (.stateless .transform fun _ => .ok ({}, .object [("saved", .bool true)]))
      else none }

/-- A request that starts alone. -/
def templateWorld : World Unit := .start (.newWithLimits 0 0 0 0 0) ()

def templateStep : PipelineStep := .regular { name := "handlebars" }

def dataStep : PipelineStep := .regular { name := "jq" }

/-- A page is rendered from data. -/
theorem content_type_agrees_iff_page : ∃ output rs,
    RunReports templateEnv 1 { steps := [dataStep, templateStep] } (.object []) none templateWorld output rs ∧
      writtenType rs = some "text/html" ∧ output.contentType = dueType rs := by
  have hreports : ∃ output rs,
      RunReports templateEnv 1 { steps := [dataStep, templateStep] } (.object []) none templateWorld output rs ∧
      allPlain rs = true ∧ recordsFrom "application/json" rs = true ∧ writtenType rs = some "text/html" ∧ ∃ w' l,
      executeWithErrorShortCircuit templateEnv 1 { steps := [dataStep, templateStep] } (.object []) none templateWorld =
        some (.ok output, w', l) :=
    ⟨_, _, ⟨_, .next rfl ⟨_, rfl⟩ (.middleware rfl rfl (by decide) rfl rfl rfl) rfl
      (.next rfl ⟨_, rfl⟩ (.middleware rfl rfl (by decide) rfl rfl rfl) rfl .nil), rfl⟩, rfl, rfl, rfl, _, _, rfl⟩
  obtain ⟨output, rs, hreports, hplain, hrecords, hwritten, w', l, hrun⟩ := hreports
  exact ⟨output, rs, hreports, hwritten,
    ((content_type_agrees_iff templateEnv 1 _ _ _ _ _ _ _ hrun).2 rs hreports hplain).2.2 hrecords⟩

/-- A page, data instead of it, and a case for a condition that is off. -/
def pageThenData : Pipeline :=
  { steps := [templateStep, dataStep, .dispatch
      [{ condition := .tag { name := "when", negated := false, args := ["admin"] }, pipeline := { steps := [] } }] none {}] }

/-- The data is returned as the HTML of the page before it: a step that is followed by a `dispatch` is not judged the last one. -/
theorem data_keeps_html :
    ¬ ∀ output rs, RunReports templateEnv 1 pageThenData (.object []) none templateWorld output rs → allPlain rs = true →
      output.contentType = dueType rs := by
  intro hall
  have hreports : ∃ output rs, RunReports templateEnv 1 pageThenData (.object []) none templateWorld output rs ∧
      allPlain rs = true ∧ writtenType rs = some "application/json" ∧ output.contentType = "text/html" :=
    ⟨_, _, ⟨_, .next rfl ⟨_, rfl⟩ (.middleware rfl rfl (by decide) rfl rfl rfl) rfl
      (.next rfl ⟨_, rfl⟩ (.middleware rfl rfl (by decide) rfl rfl rfl) rfl
        (.next rfl ⟨_, rfl⟩ (.unselected .dispatchCase) rfl .nil)), rfl⟩, rfl, rfl, rfl⟩
  obtain ⟨output, rs, hreports, hplain, hwritten, htype⟩ := hreports
  have hdue := hall output rs hreports hplain
  rw [dueType, hwritten, htype] at hdue
  revert hdue
  decide

end WebPipe
