import WebPipe.Lemmas.TagChains
import WebPipe.Parser.Steps

/-!
# How steps are parsed

Every step parser takes some text and calls the parser of pipelines on what is left, so that the recursion has a fixed point. What a
pipeline leaves is text after which blanks and comments can be passed.
-/

namespace WebPipe
namespace Parser

open Nom

/-! ## What is left -/

theorem suffix_parseInlineArgs : Suffix parseInlineArgs := by
  unfold parseInlineArgs
  refine suffix_rest.bind fun fragment => ?_
  dsimp only
  split
  · exact suffix_pure _
  · refine (eats_char _).suffix.bind fun _ => suffix_rest.bind fun inputFragment => ?_
    split
    · exact suffix_fail
    · exact (suffix_take _).bind fun _ => suffix_pure _

theorem suffix_parseScopedIdentifierString : Suffix parseScopedIdentifierString := by
  refine eats_parseIdentifier.suffix.bind fun firstPart => Suffix.bind ?_ fun secondPart => ?_
  · exact Suffix.opt ((suffix_tag _).bind fun _ => eats_parseIdentifier.suffix)
  · cases secondPart <;> exact suffix_pure _

theorem suffix_parseStepConfig : Suffix parseStepConfig :=
  ((eats_between _).suffix.bind fun _ => suffix_pure _).alt
    (((eats_between _).suffix.bind fun _ => suffix_pure _).alt (suffix_parseScopedIdentifierString.bind fun _ => suffix_pure _))

theorem suffix_configSegment : Suffix configSegment :=
  (eats_char _).suffix.bind fun _ => suffix_multispace0.bind fun _ => suffix_parseStepConfig

/-- A tag expression leaves an end of the text. -/
theorem suffix_parseTagExpr : Suffix parseTagExpr := fun l => suffix_parseTagExprIn (l.length + 1) l

/-- Further tags leave an end of the text. -/
theorem suffix_moreTags (n : Nat) (expr : TagExpr) : Suffix (moreTags n expr) := by
  induction n generalizing expr with
  | zero => exact suffix_fail
  | succ n ih =>
    intro l e r h
    unfold moreTags at h
    dsimp only at h
    split at h
    · cases h
      exact List.suffix_rfl
    · have hsuffix : Suffix (do let nextTag ← parseTag; moreTags n (.and expr (.tag nextTag)) : Parser TagExpr) :=
        suffix_parseTag.bind fun _ => ih _
      exact (hsuffix _ _ _ h).trans (List.dropWhile_suffix _)

theorem suffix_parseStepCondition : Suffix parseStepCondition := by
  refine (suffix_takeWhile _).bind fun _ => suffix_rest.bind fun fragment => ?_
  split
  · exact suffix_pure _
  · exact suffix_parseTagExpr.bind fun _ => suffix_rest.bind fun _ => (suffix_moreTags _ _).bind fun _ => suffix_pure _

/-! ## Failures -/

/-- Skipping never fails for good. -/
theorem recovers_skipLoop (n : Nat) : Recovers (skipLoop n) := by
  induction n with
  | zero => exact recovers_fail
  | succ n ih =>
    unfold skipLoop
    refine (recovers_takeWhile _).bind fun _ => recovers_rest.bind fun fragment => ?_
    split
    · split
      · exact (recovers_take _).bind fun _ => ih
      · exact (recovers_take _).bind fun _ => ih
    · exact recovers_pure _

theorem recovers_skipWsAndComments : Recovers skipWsAndComments := fun l => recovers_skipLoop (l.length + 1) l

/-- An identifier never fails for good. -/
theorem recovers_parseIdentifier : Recovers parseIdentifier := by
  have hstart : Recovers identifierStart :=
    (((recovers_takeWhile1 _).bind fun _ => recovers_pure _).alt (recovers_tag _)).bind fun _ => recovers_pure _
  have hrest : Recovers identifierRest := hstart.alt ((recovers_tag _).bind fun _ => recovers_pure _)
  exact ((hstart.bind fun _ => hrest.many0.bind fun _ => recovers_pure _).recognize).bind fun _ => recovers_pure _

theorem recovers_opt {α : Type} {p : Parser α} (h : Recovers p) : Recovers (opt p) := by
  intro l
  obtain ⟨o, r, ho⟩ := h.opt l
  rw [ho]
  nofun

theorem recovers_between (c : Char) : Recovers (between c) :=
  ((recovers_char c).delimited (recovers_takeUntil c) (recovers_char c)).bind fun _ => recovers_pure _

/-- A tag never fails for good. -/
theorem recovers_parseTag : Recovers parseTag := by
  have hargs : Recovers parseTagArgs := (recovers_char _).delimited
    (((recovers_char _).bind fun _ => (recovers_takeWhile _).bind fun _ => recovers_pure _).separatedList1
      ((recovers_takeWhile _).preceded ((recovers_between _).alt recovers_parseIdentifier))) (recovers_char _)
  exact (recovers_char _).bind fun _ => (recovers_opt (recovers_char _)).bind fun _ => recovers_parseIdentifier.bind fun _ =>
    (recovers_opt hargs).bind fun _ => recovers_pure _

/-- A tag expression never fails for good. -/
theorem recovers_parseTagExpr : Recovers parseTagExpr := by
  have hoperator : ∀ word, Recovers (operator word) := fun word =>
    (recovers_takeWhile _).delimited (recovers_tag word) (recovers_takeWhile _)
  have hin : ∀ n, Recovers (parseTagExprIn n) := by
    intro n
    induction n with
    | zero => exact recovers_fail
    | succ n ih =>
      have hprimary : Recovers (parseTagPrimary (parseTagExprIn n)) :=
        (((recovers_char _).bind fun _ => recovers_takeWhile _).delimited ih
          ((recovers_takeWhile _).bind fun _ => recovers_char _)).alt (recovers_parseTag.bind fun _ => recovers_pure _)
      have hand : Recovers (parseAndExpr (parseTagExprIn n)) :=
        hprimary.bind fun _ => ((hoperator _).preceded hprimary).many0.bind fun _ => recovers_pure _
      exact hand.bind fun _ => ((hoperator _).preceded hand).many0.bind fun _ => recovers_pure _
  exact fun l => hin (l.length + 1) l

/-- A case fails for good only where its pipeline does. -/
theorem recovers_parseDispatchBranch {pipeline : Parser Pipeline} (h : Recovers pipeline) : Recovers (parseDispatchBranch pipeline) :=
  recovers_skipWsAndComments.bind fun _ => (recovers_tag _).bind fun _ => (recovers_takeWhile _).bind fun _ =>
    recovers_parseTagExpr.bind fun _ => (recovers_takeWhile _).bind fun _ => (recovers_char _).bind fun _ =>
      recovers_skipWsAndComments.bind fun _ => h.bind fun _ => recovers_pure _

/-- A block fails for good only where its pipeline does. -/
theorem recovers_block {pipeline : Parser Pipeline} (h : Recovers pipeline) (word : String) : Recovers (block pipeline word) :=
  Recovers.preceded ((recovers_tag _).bind fun _ => recovers_skipWsAndComments) h

/-! ## The recursion -/

section Recursion

variable {source : List Char} {fromStr : String → Option (List String)}

/-- The head of a step takes the arrow at least. -/
theorem eats_stepHead {body : List Char → Parser PipelineStep} (h : ∀ s, Suffix (body s)) : Eats (stepHead body) :=
  suffix_skipWsAndComments.bind_eats fun _ => suffix_rest.bind_eats fun startSpan =>
    (eats_tag (t := "|>") (by decide)).bind fun _ => suffix_multispace0.bind fun _ => h startSpan

/-- A rule for steps: it takes some text, and calls the parser of pipelines on what is left only. -/
structure StepRule (rule : Parser Pipeline → Parser PipelineStep) : Prop where
  guarded : Guarded rule
  eats : ∀ pipeline, Suffix pipeline → Eats (rule pipeline)

/-- A step parser takes `|>`, and then the body may call the parser of pipelines. -/
theorem stepRule_stepHead {body : List Char → Parser Pipeline → Parser PipelineStep} (h : ∀ s, Local (body s)) :
    StepRule (fun pipeline => stepHead fun startSpan => body startSpan pipeline) where
  guarded := (guarded_const suffix_skipWsAndComments).bind fun _ => (guarded_const suffix_rest).bind fun startSpan =>
    (eats_tag (t := "|>") (by decide)).guarded fun _ => (local_const suffix_multispace0).bind fun _ => h startSpan
  eats pipeline hp := eats_stepHead fun s => (h s).suffix pipeline hp

/-- Two rules of steps are tried one after the other. -/
theorem StepRule.alt {F G : Parser Pipeline → Parser PipelineStep} (hF : StepRule F) (hG : StepRule G) :
    StepRule (fun pipeline => alt (F pipeline) (G pipeline)) where
  guarded := hF.guarded.alt hG.guarded
  eats pipeline hp := (hF.eats pipeline hp).alt (hG.eats pipeline hp)

/-- A step starts with `|>`. -/
theorem stepHead_of_not (body : List Char → Parser PipelineStep) {l : List Char} (h : NotBlank l) (hpipe : ¬"|>".toList <+: l) :
    stepHead body l = .error .error := by
  rw [stepHead, bind_of_ok (skip_notBlank h), bind_of_ok rfl, bind_of_error (tag_eq_error hpipe)]

/-- The body of a step is parsed after `|>` and blanks. -/
theorem stepHead_apply (body : List Char → Parser PipelineStep) {ws l : List Char} (hws : ∀ c ∈ ws, isMultispace c = true)
    (h : NoBlank l) : stepHead body ("|>".toList ++ (ws ++ l)) = body ("|>".toList ++ (ws ++ l)) l := by
  have hnot : NotBlank ("|>".toList ++ (ws ++ l)) := notBlank_cons (c := '|') (by decide) (by decide) _
  rw [stepHead, bind_of_ok (skip_notBlank hnot), bind_of_ok rfl, bind_of_ok (tag_append ..),
    bind_of_ok (multispace0_append hws h)]

/-- A regular step takes some text. -/
theorem eats_parseRegularStep : Eats (parseRegularStep source fromStr) :=
  eats_stepHead fun _ => eats_parseIdentifier.suffix.bind fun _ => suffix_parseInlineArgs.bind fun _ => suffix_multispace0.bind fun _ =>
    suffix_configSegment.opt.bind fun _ => suffix_parseStepCondition.bind fun _ => suffix_rest.bind fun _ =>
      suffix_multispace0.bind fun _ => suffix_pure _

/-- A branch takes its name at least. -/
theorem eats_parseResultBranch {pipeline : Parser Pipeline} (h : Suffix pipeline) : Eats (parseResultBranch pipeline) := by
  refine suffix_skipWsAndComments.bind_eats fun _ => eats_parseIdentifier.bind fun _ => (eats_char _).suffix.bind fun _ =>
    (eats_takeWhile1 _).suffix.bind fun statusCode => ?_
  split
  · exact suffix_abort
  · exact (eats_char _).suffix.bind fun _ => (eats_char _).suffix.bind fun _ => suffix_multispace0.bind fun _ => h.bind fun _ => suffix_pure _

theorem local_parseResultBranch : Local parseResultBranch := by
  refine (local_const suffix_skipWsAndComments).bind fun _ => (local_const eats_parseIdentifier.suffix).bind fun _ =>
    (local_const (eats_char _).suffix).bind fun _ => (local_const (eats_takeWhile1 _).suffix).bind fun statusCode => ?_
  generalize Text.parseUnsigned 16 (String.ofList statusCode) = status
  cases status with
  | none => exact local_const suffix_abort
  | some statusCode =>
    exact (local_const (eats_char _).suffix).bind fun _ => (local_const (eats_char _).suffix).bind fun _ =>
      (local_const suffix_multispace0).bind fun _ => local_id.bind fun _ => local_const (suffix_pure _)

theorem stepRule_parseResultStep : StepRule (parseResultStep source) :=
  stepRule_stepHead fun _ => (local_const (suffix_tag _)).bind fun _ => (local_const suffix_skipWsAndComments).bind fun _ =>
    local_parseResultBranch.many0.bind fun _ => local_const (suffix_pure _)

theorem local_block (word : String) : Local fun pipeline => block pipeline word :=
  (local_const ((suffix_tag word).bind fun _ => suffix_skipWsAndComments)).bind fun _ => local_id

theorem stepRule_parseIfStep : StepRule (parseIfStep source) :=
  stepRule_stepHead fun _ => (local_const (suffix_tag _)).bind fun _ => (local_const suffix_skipWsAndComments).bind fun _ =>
    local_id.bind fun _ => (local_const suffix_skipWsAndComments).bind fun _ => (local_const (suffix_tag _)).bind fun _ =>
      (local_const suffix_skipWsAndComments).bind fun _ => local_id.bind fun _ => (local_const suffix_skipWsAndComments).bind fun _ =>
        (local_block _).opt.bind fun _ => (local_const suffix_skipWsAndComments).bind fun _ =>
          (local_const (suffix_tag _).opt).bind fun _ => local_const (suffix_pure _)

theorem local_parseDispatchBranch : Local parseDispatchBranch :=
  (local_const suffix_skipWsAndComments).bind fun _ => (local_const (suffix_tag _)).bind fun _ =>
    (local_const suffix_multispace0).bind fun _ => (local_const suffix_parseTagExpr).bind fun _ =>
      (local_const suffix_multispace0).bind fun _ => (local_const (eats_char _).suffix).bind fun _ =>
        (local_const suffix_skipWsAndComments).bind fun _ => local_id.bind fun _ => local_const (suffix_pure _)

theorem eats_parseDispatchBranch {pipeline : Parser Pipeline} (h : Suffix pipeline) : Eats (parseDispatchBranch pipeline) :=
  suffix_skipWsAndComments.bind_eats fun _ => (eats_tag (t := "case") (by decide)).bind fun _ => suffix_multispace0.bind fun _ =>
    suffix_parseTagExpr.bind fun _ => suffix_multispace0.bind fun _ => (eats_char _).suffix.bind fun _ =>
      suffix_skipWsAndComments.bind fun _ => h.bind fun _ => suffix_pure _

theorem stepRule_parseDispatchStep : StepRule (parseDispatchStep source) :=
  stepRule_stepHead fun _ => (local_const (suffix_tag _)).bind fun _ => (local_const suffix_skipWsAndComments).bind fun _ =>
    local_parseDispatchBranch.many0.bind fun _ => ((local_const suffix_skipWsAndComments).bind fun _ => local_block _).opt.bind fun _ =>
      (local_const suffix_skipWsAndComments).bind fun _ => (local_const (suffix_tag _).opt).bind fun _ => local_const (suffix_pure _)

theorem stepRule_parseForeachStep : StepRule (parseForeachStep source) :=
  stepRule_stepHead fun _ => (local_const (suffix_tag _)).bind fun _ => (local_const (eats_takeWhile1 _).suffix).bind fun _ =>
    (local_const (eats_takeWhile1 _).suffix).bind fun _ => (local_const suffix_skipWsAndComments).bind fun _ => local_id.bind fun _ =>
      (local_const suffix_skipWsAndComments).bind fun _ => (local_const (suffix_tag _)).bind fun _ => local_const (suffix_pure _)

/-- All rules of steps together are one. -/
theorem stepRule_parsePipelineStep : StepRule (parsePipelineStep source fromStr) :=
  stepRule_parseResultStep.alt (stepRule_parseIfStep.alt (stepRule_parseDispatchStep.alt
    (stepRule_parseForeachStep.alt ⟨guarded_const eats_parseRegularStep.suffix, fun _ _ => eats_parseRegularStep⟩)))

/-- One turn of a pipeline leaves an end of the text. -/
theorem suffix_pipelineTurn {pipeline : Parser Pipeline} (h : Suffix pipeline) : Suffix (pipelineTurn source fromStr pipeline) := by
  intro l p r hp
  unfold pipelineTurn at hp
  split at hp
  · cases hp
  · next newInput hskip =>
    split at hp
    · next step afterStep hstep =>
      obtain ⟨more, l', hmore, hpure⟩ := bind_eq_ok hp
      cases hpure
      exact (h _ _ _ hmore).trans ((stepRule_parsePipelineStep.guarded.suffix _ h _ _ _ hstep).trans
        (suffix_skipWsAndComments _ _ _ hskip))
    · cases hp
      exact List.suffix_rfl

/-- A pipeline calls itself only after a step has taken some text. -/
theorem guarded_pipelineTurn : Guarded (pipelineTurn source fromStr) := by
  refine ⟨fun p hp => suffix_pipelineTurn hp, fun n p q hp hq hpq l hl => ?_⟩
  unfold pipelineTurn
  cases hskip : skipWsAndComments l with
  | error e => rfl
  | ok x =>
    obtain ⟨_, newInput⟩ := x
    have hle := (suffix_skipWsAndComments _ _ _ hskip).length_le
    have hsame : parsePipelineStep source fromStr p newInput = parsePipelineStep source fromStr q newInput :=
      stepRule_parsePipelineStep.guarded.congr n p q hp hq hpq newInput (by omega)
    dsimp only
    rw [← hsame]
    cases hstep : parsePipelineStep source fromStr p newInput with
    | error e => rfl
    | ok x =>
      obtain ⟨step, afterStep⟩ := x
      have hlt := (stepRule_parsePipelineStep.eats p hp _ _ _ hstep).2
      exact bind_congr_of (hpq afterStep (by omega)) fun _ _ _ => rfl

/-- A pipeline leaves an end of the text. -/
theorem suffix_parsePipeline : Suffix (parsePipeline source fromStr) := guarded_pipelineTurn.suffix_fix

/-- One turn of the loop, with the loop again for the rest. -/
theorem parsePipeline_eq (l : List Char) :
    parsePipeline source fromStr l = pipelineTurn source fromStr (parsePipeline source fromStr) l := guarded_pipelineTurn.fix_eq l

/-- A step and those after it. -/
theorem parsePipeline_of_step {l newInput afterStep : List Char} {step : PipelineStep} (hskip : skipWsAndComments l = .ok ((), newInput))
    (hstep : parsePipelineStep source fromStr (parsePipeline source fromStr) newInput = .ok (step, afterStep)) :
    parsePipeline source fromStr l =
      (do let more ← parsePipeline source fromStr; pure { steps := step :: more.steps } : Parser Pipeline) afterStep := by
  rw [parsePipeline_eq, pipelineTurn, hskip]
  dsimp only
  rw [hstep]

/-- Where no step can be read the pipeline ends. -/
theorem parsePipeline_of_no_step {l newInput : List Char} {e : Err} (hskip : skipWsAndComments l = .ok ((), newInput))
    (hstep : parsePipelineStep source fromStr (parsePipeline source fromStr) newInput = .error e) :
    parsePipeline source fromStr l = .ok ({ steps := [] }, l) := by
  rw [parsePipeline_eq, pipelineTurn, hskip]
  dsimp only
  rw [hstep]

/-- Where a step fails for good the pipeline ends before it. -/
theorem recovers_parsePipeline : Recovers (parsePipeline source fromStr) := by
  intro l
  induction hn : l.length using Nat.strongRecOn generalizing l with
  | ind n ih =>
    cases hskip : skipWsAndComments l with
    | error e =>
      rw [parsePipeline_eq, pipelineTurn, hskip]
      exact fun he => recovers_skipWsAndComments l (hskip.trans (congrArg _ (Except.error.inj he)))
    | ok x =>
      obtain ⟨_, newInput⟩ := x
      cases hstep : parsePipelineStep source fromStr (parsePipeline source fromStr) newInput with
      | error e =>
        rw [parsePipeline_of_no_step hskip hstep]
        nofun
      | ok x =>
        obtain ⟨step, afterStep⟩ := x
        rw [parsePipeline_of_step hskip hstep]
        have hlt := (stepRule_parsePipelineStep.eats _ suffix_parsePipeline _ _ _ hstep).2
        have hle := (suffix_skipWsAndComments _ _ _ hskip).length_le
        have hmore := ih afterStep.length (by omega) afterStep rfl
        cases hp : parsePipeline source fromStr afterStep with
        | error e =>
          rw [bind_of_error hp]
          exact fun he => hmore (hp.trans (congrArg _ (Except.error.inj he)))
        | ok y =>
          rw [bind_of_ok hp]
          nofun

/-- A step starts with `|>`, of whatever kind it is. -/
theorem parsePipelineStep_of_not (pipeline : Parser Pipeline) {l : List Char} (h : NotBlank l) (hpipe : ¬"|>".toList <+: l) :
    parsePipelineStep source fromStr pipeline l = .error .error := by
  unfold parsePipelineStep parseResultStep parseIfStep parseDispatchStep parseForeachStep parseRegularStep
  iterate 4 rw [alt_of_error (stepHead_of_not _ h hpipe)]
  exact stepHead_of_not _ h hpipe

/-- Text that is no step is no pipeline. -/
theorem parsePipeline_of_not {l : List Char} (h : NotBlank l) (hpipe : ¬"|>".toList <+: l) :
    parsePipeline source fromStr l = .ok ({ steps := [] }, l) :=
  parsePipeline_of_no_step (skip_notBlank h) (parsePipelineStep_of_not _ h hpipe)

end Recursion

end Parser
end WebPipe
