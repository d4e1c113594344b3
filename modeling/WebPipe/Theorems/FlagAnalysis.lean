import WebPipe.Server.Flags

/-!
# When the flag analysis comes back

The analysis keeps no record of the pipelines it is in: a cycle of references that it reaches before a flag keeps it going until the
stack is used up. It comes back exactly where it meets no infinite chain of references.
-/

namespace WebPipe

open Search

variable {σ : Type}

/-- The analysis of a pipeline comes to another: the first one refers to it, by a nested pipeline or a call, and before that there is no
flag, and only pipelines from which neither a flag nor a cycle is reached. -/
def AnalysisVisits (env : ExecutionEnv σ) : Pipeline → Pipeline → Prop := Visits (pipelineItems env)

/-- The analysis of a pipeline ends exactly when no infinite chain of pipelines starts at it in which the analysis comes from each one
to the next. -/
theorem needsFlags_terminates_iff (env : ExecutionEnv σ) (pipeline : Pipeline) :
    (∃ fuel answer, pipelineNeedsFlags env fuel pipeline = some answer) ↔
      ¬ ∃ chain : ℕ → Pipeline, chain 0 = pipeline ∧ ∀ n, AnalysisVisits env (chain n) (chain (n + 1)) := by
  simp only [pipelineNeedsFlags_eq_search]
  exact search_terminates_iff

/-- Counts down: it calls itself under a guard. -/
def countdown : Pipeline :=
  { steps := [.regular { name := "pipeline", config := "countdown",
                         condition := some (.tag { name := "guard", negated := false, args := [".n > 0"] }) }] }

/-- The program with this one named pipeline. -/
def countdownEnv : ExecutionEnv Unit :=
  { registry := fun _ => none
    namedPipelines := fun m name => if m = none ∧ name = "countdown" then some countdown else none }

/-- Pipelines may call themselves, and the analysis of one that does never ends. -/
theorem needsFlags_diverges :
    ¬ ∀ (env : ExecutionEnv Unit) (pipeline : Pipeline), ∃ fuel answer, pipelineNeedsFlags env fuel pipeline = some answer := by
  intro h
  refine (needsFlags_terminates_iff countdownEnv countdown).mp (h _ _) ⟨fun _ => countdown, rfl, fun _ => ⟨[], [], rfl, nofun⟩⟩

end WebPipe
