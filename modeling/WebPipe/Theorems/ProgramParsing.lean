import WebPipe.Lemmas.Program

/-!
# Parsing a file ends

Every turn of the loop over top-level elements, and every turn of the loop over steps, takes some text; and the loop over elements stops
only where nothing but blanks and comments is left.
-/

namespace WebPipe
namespace Parser

open Nom

variable {source : List Char} {fromStr : String → Option (List String)}

/-- The loop of `parse_program` from a program and a text, with what it ends with: no bound on its turns. -/
inductive LoopEnds (source : List Char) (fromStr : String → Option (List String)) :
    SourceProgram → List Char → Except Err (SourceProgram × List Char) → Prop where
  | empty (p : SourceProgram) : LoopEnds source fromStr p [] (.ok (p, []))
  | error {p : SourceProgram} {l : List Char} {e : Err} (hl : l ≠ []) (h : programTurn source fromStr p l = .error e) :
      LoopEnds source fromStr p l (.error e)
  | break {p : SourceProgram} {l r : List Char} (hl : l ≠ []) (h : programTurn source fromStr p l = .ok (none, r)) :
      LoopEnds source fromStr p l (.ok (p, r))
  | next {p p' : SourceProgram} {l r : List Char} {result : Except Err (SourceProgram × List Char)} (hl : l ≠ [])
      (h : programTurn source fromStr p l = .ok (some p', r)) (hrest : LoopEnds source fromStr p' r result) :
      LoopEnds source fromStr p l result

/-! ## Turns -/

/-- One turn of the program loop takes some text. -/
theorem programTurn_shortens {p p' : SourceProgram} {l r : List Char} (h : programTurn source fromStr p l = .ok (some p', r)) :
    r <:+ l ∧ r.length < l.length := by
  unfold programTurn at h
  split at h
  · cases h
  · next newRemaining hskip =>
    split at h
    · cases h
    · split at h
      · next newInput helement =>
        cases h
        obtain ⟨hsuffix, hlt⟩ := eats_element p _ _ _ helement
        have hblank := suffix_skipWsAndComments _ _ _ hskip
        exact ⟨hsuffix.trans hblank, Nat.lt_of_lt_of_le hlt hblank.length_le⟩
      · cases h
      · cases h

/-- One step of a pipeline takes some text. -/
theorem pipelineTurn_shortens {l newInput afterStep : List Char} {step : PipelineStep} (hskip : skipWsAndComments l = .ok ((), newInput))
    (hstep : parsePipelineStep source fromStr (parsePipeline source fromStr) newInput = .ok (step, afterStep)) :
    afterStep <:+ l ∧ afterStep.length < l.length := by
  obtain ⟨hsuffix, hlt⟩ := stepRule_parsePipelineStep.eats _ suffix_parsePipeline _ _ _ hstep
  have hblank := suffix_skipWsAndComments _ _ _ hskip
  exact ⟨hsuffix.trans hblank, Nat.lt_of_lt_of_le hlt hblank.length_le⟩

/-- The loop breaks only where nothing but blanks and comments is left. -/
theorem skip_of_programTurn_none {p : SourceProgram} {l r : List Char} (h : programTurn source fromStr p l = .ok (none, r)) :
    skipWsAndComments r = .ok ((), []) := by
  unfold programTurn at h
  split at h
  · cases h
  · next newRemaining hskip =>
    split at h
    · next hempty =>
      cases h
      rw [hskip, List.isEmpty_iff.mp hempty]
    · next hne =>
      split at h
      · cases h
      · cases h
      · next helement => exact absurd helement (element_ne_error p (by simpa using hne) (notBlank_of_skip hskip))

/-! ## The loops -/

/-- The loop ends: induction on the fuel, with the text getting shorter. -/
theorem loopEnds_programLoop {n : Nat} {p : SourceProgram} {l : List Char} (hn : l.length < n) :
    LoopEnds source fromStr p l (programLoop source fromStr n p l) := by
  induction n generalizing p l with
  | zero => omega
  | succ n ih =>
    unfold programLoop
    cases l with
    | nil => exact .empty p
    | cons c l =>
      have hne : c :: l ≠ [] := List.cons_ne_nil c l
      rw [if_neg (by simp)]
      cases hturn : programTurn source fromStr p (c :: l) with
      | error e => exact .error hne hturn
      | ok x =>
        obtain ⟨_ | p', r⟩ := x
        · exact .break hne hturn
        · have hlt := (programTurn_shortens hturn).2
          exact .next hne hturn (ih (by omega))

/-- It ends in one way. -/
theorem LoopEnds.unique {p : SourceProgram} {l : List Char} {result result' : Except Err (SourceProgram × List Char)}
    (h : LoopEnds source fromStr p l result) (h' : LoopEnds source fromStr p l result') : result = result' := by
  induction h with
  | empty p =>
    cases h' with
    | empty => rfl
    | error hl | «break» hl | next hl => exact absurd rfl hl
  | error hl h =>
    cases h' with
    | empty => exact absurd rfl hl
    | error hl' h' => rw [h] at h'; cases h'; rfl
    | «break» hl' h' | next hl' h' => rw [h] at h'; cases h'
  | «break» hl h =>
    cases h' with
    | empty => exact absurd rfl hl
    | «break» hl' h' => rw [h] at h'; cases h'; rfl
    | error hl' h' | next hl' h' => rw [h] at h'; cases h'
  | next hl h hrest ih =>
    cases h' with
    | empty => exact absurd rfl hl
    | next hl' h' hrest' => rw [h] at h'; cases h'; exact ih hrest'
    | error hl' h' | «break» hl' h' => rw [h] at h'; cases h'

/-- Where it ends well only blanks and comments are left. -/
theorem skip_of_loopEnds {p p' : SourceProgram} {l r : List Char} (h : LoopEnds source fromStr p l (.ok (p', r))) :
    skipWsAndComments r = .ok ((), []) := by
  generalize hresult : (Except.ok (p', r) : Except Err (SourceProgram × List Char)) = result at h
  induction h with
  | empty => cases hresult; rfl
  | error => cases hresult
  | «break» hl h => cases hresult; exact skip_of_programTurn_none h
  | next hl h hrest ih => exact ih hresult

/-- The parser of files ends on every text: each turn of the loop over elements and of the loop over steps takes some text, so that more
fuel, or a greater depth of nested pipelines, than the text has characters changes nothing, which is so of the loops inside tests as well;
and where it returns a program only blanks and comments are left. -/
theorem parsing_ends (fromStr : String → Option (List String)) :
    (∀ (source l r : List Char) (p p' : SourceProgram), programTurn source fromStr p l = .ok (some p', r) →
      r <:+ l ∧ r.length < l.length) ∧
    (∀ (source l newInput afterStep : List Char) (step : PipelineStep), skipWsAndComments l = .ok ((), newInput) →
      parsePipelineStep source fromStr (parsePipeline source fromStr) newInput = .ok (step, afterStep) →
      afterStep <:+ l ∧ afterStep.length < l.length) ∧
    (∀ (source l : List Char) (p : SourceProgram) (turns : Nat), l.length < turns →
      LoopEnds source fromStr p l (programLoop source fromStr turns p l)) ∧
    (∀ (source l : List Char) (depth : Nat), l.length < depth →
      fixLoop (pipelineTurn source fromStr) depth l = pipelineTurn source fromStr (parsePipeline source fromStr) l) ∧
    (∀ (source l : List Char) (n : Nat), l.length < n →
      (∀ d, loopOk skipWsAndComments (describeItem source) (pure ()) n d l = whileOk skipWsAndComments (describeItem source) (pure ()) d l) ∧
      (∀ bs, loopOk (pure ()) letItem skipWsAndComments n bs l = whileOk (pure ()) letItem skipWsAndComments bs l) ∧
      (∀ c, loopOk (pure ()) clause (pure ()) n c l = whileOk (pure ()) clause (pure ()) c l)) ∧
    (∀ (input : List Char) (turns : Nat), input.length < turns → parseProgramWithin fromStr turns input = parseProgram fromStr input) ∧
    (∀ (input r : List Char) (p : SourceProgram), parseProgram fromStr input = .ok (p, r) → skipWsAndComments r = .ok ((), [])) := by
  have hwithin : ∀ (input r : List Char) (turns : Nat), skipWsAndComments input = .ok ((), r) → input.length < turns →
      LoopEnds input fromStr {} r (parseProgramWithin fromStr turns input) := by
    intro input r turns hskip hturns
    have hle := (suffix_skipWsAndComments _ _ _ hskip).length_le
    rw [parseProgramWithin, bind_of_ok hskip]
    exact loopEnds_programLoop (by omega)
  refine ⟨fun _ _ _ _ _ => programTurn_shortens, fun _ _ _ _ _ => pipelineTurn_shortens, fun _ _ _ _ => loopEnds_programLoop,
    ?_, ?_, ?_, ?_⟩
  · intro source l depth hdepth
    rw [guarded_pipelineTurn.fixLoop_eq hdepth]
    exact parsePipeline_eq l
  · intro source l n hn
    exact ⟨fun _ => loopOk_eq suffix_skipWsAndComments eats_describeItem (suffix_pure ()) hn,
      fun _ => loopOk_eq (suffix_pure ()) eats_letItem suffix_skipWsAndComments hn,
      fun _ => loopOk_eq (suffix_pure ()) eats_clause (suffix_pure ()) hn⟩
  · intro input turns hturns
    cases hskip : skipWsAndComments input with
    | error e => rw [parseProgram, parseProgramWithin, parseProgramWithin, bind_of_error hskip, bind_of_error hskip]
    | ok x => exact (hwithin input x.2 turns hskip hturns).unique (hwithin input x.2 _ hskip (Nat.lt_succ_self _))
  · intro input r p h
    cases hskip : skipWsAndComments input with
    | error e =>
      rw [parseProgram, parseProgramWithin, bind_of_error hskip] at h
      cases h
    | ok x =>
      have hends := hwithin input x.2 (input.length + 1) hskip (Nat.lt_succ_self _)
      rw [← parseProgram, h] at hends
      exact skip_of_loopEnds hends

example : (parseProgram (fun _ => none) "import \"./a.wp\" as a\n?? what\nGET /\n  |> pipeline: home\n# end".toList).map
    (fun x => (x.1.imports, x.1.routes.map Route.path, x.2)) = .ok ([⟨"./a.wp", "a"⟩], ["/"], "# end".toList) := by
  decide +kernel

end Parser
end WebPipe
