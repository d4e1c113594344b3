import WebPipe.Executor.Step

/-!
# Negated tags

`@!when(a, b)` is to be the negation of `@when(a, b)`. The code negates each argument instead of the result, and the step runs when none
of the conditions is met. `tag_negation_iff` says for which arguments that makes no difference.
-/

namespace WebPipe

/-- A condition or a flag is met; an unknown one is not. -/
def isMet (read : String → Option Bool) (name : String) : Bool := (read name).getD false

/-- All arguments are met, or none is. -/
def Uniform (read : String → Option Bool) (args : List String) : Prop := ∀ a ∈ args, ∀ b ∈ args, isMet read a = isMet read b

/-- A tag with arguments, or its negation. -/
def namedTag (name : String) (negated : Bool) (args : List String) : Tag := { name := name, negated := negated, args := args }

theorem checkAll_plain (read : String → Option Bool) (name : String) (args : List String) :
    checkAll read (namedTag name false args) = args.all (isMet read) := by
  unfold checkAll namedTag isMet
  simp

theorem checkAll_negated (read : String → Option Bool) (name : String) (args : List String) :
    checkAll read (namedTag name true args) = args.all fun a => !isMet read a := by
  simp [checkAll, namedTag, isMet]

/-- Of a list that is not empty, either none is met exactly when not all are, or some are met and some are not. -/
theorem none_met_iff (read : String → Option Bool) {args : List String} (h : args ≠ []) :
    (args.all fun a => !isMet read a) = !args.all (isMet read) ↔ Uniform read args := by
  obtain ⟨first, rest, rfl⟩ := List.exists_cons_of_ne_nil h
  constructor
  · intro heq a ha b hb
    cases hall : (first :: rest).all (isMet read) with
    | true =>
      rw [List.all_eq_true.mp hall a ha, List.all_eq_true.mp hall b hb]
    | false =>
      rw [hall] at heq
      have hnone := List.all_eq_true.mp heq
      have hna := hnone a ha
      have hnb := hnone b hb
      simp only [Bool.not_eq_true'] at hna hnb
      rw [hna, hnb]
  · intro huniform
    have hsame : ∀ a ∈ first :: rest, isMet read a = isMet read first :=
      fun a ha => huniform a ha first List.mem_cons_self
    cases hfirst : isMet read first with
    | true =>
      have hall : (first :: rest).all (isMet read) = true := by
        rw [List.all_eq_true]
        intro a ha
        rw [hsame a ha, hfirst]
      simp [hall, hfirst]
    | false =>
      have hnone : ((first :: rest).all fun a => !isMet read a) = true := by
        rw [List.all_eq_true]
        intro a ha
        rw [hsame a ha, hfirst]
        rfl
      rw [hnone]
      simp [hfirst]

/-- The negation of a tag is its complement if and only if all its arguments are met or none is. -/
theorem checkAll_complement_iff (read : String → Option Bool) (name : String) {args : List String} (h : args ≠ []) :
    checkAll read (namedTag name true args) = !checkAll read (namedTag name false args) ↔ Uniform read args := by
  rw [checkAll_plain, checkAll_negated]
  exact none_met_iff read h

/-- Two cases of a `dispatch`: one for conditions, and one for their negation. -/
def whenBranches (args : List String) (met unmet : Pipeline) : List DispatchBranch :=
  [{ condition := .tag (namedTag "when" false args), pipeline := met },
    { condition := .tag (namedTag "when" true args), pipeline := unmet }]

theorem checkTagExpr_when {σ : Type} (env : ExecutionEnv σ) (ctx : RequestContext) (state : Value) (negated : Bool)
    (args : List String) :
    checkTagExpr env ctx state (.tag (namedTag "when" negated args)) = checkWhenTag (namedTag "when" negated args) ctx := by
  simp [checkTagExpr, checkTag, namedTag]

/-- `@!when` is the complement of `@when`, and `@!flag` that of `@flag`, if and only if all arguments are met or none is. Exactly then one
of the two cases of a `dispatch` is selected; otherwise its default is. -/
theorem tag_negation_iff {σ : Type} (env : ExecutionEnv σ) (ctx : RequestContext) (state : Value) (args : List String)
    (h : args ≠ []) :
    (checkWhenTag (namedTag "when" true args) ctx = !checkWhenTag (namedTag "when" false args) ctx ↔ Uniform ctx.conditions args) ∧
    (checkFlagTag (namedTag "flag" true args) ctx = !checkFlagTag (namedTag "flag" false args) ctx ↔
      Uniform ctx.featureFlags args) ∧
    (Xor (checkTagExpr env ctx state (.tag (namedTag "when" false args)) = true)
        (checkTagExpr env ctx state (.tag (namedTag "when" true args)) = true) ↔ Uniform ctx.conditions args) ∧
    ∀ met unmet default, ¬Uniform ctx.conditions args →
      selectCase env ctx state (whenBranches args met unmet) default = default := by
  have hwhen := checkAll_complement_iff ctx.conditions "when" h
  refine ⟨hwhen, checkAll_complement_iff ctx.featureFlags "flag" h, ?_, fun met unmet default hmixed => ?_⟩
  · rw [checkTagExpr_when, checkTagExpr_when, ← hwhen]
    unfold checkWhenTag
    cases checkAll ctx.conditions (namedTag "when" true args) <;>
      cases checkAll ctx.conditions (namedTag "when" false args) <;> simp [Xor]
  · -- the arguments are not all met, and not none of them is
    have hplain : checkWhenTag (namedTag "when" false args) ctx = false := by
      by_contra hall
      refine hmixed fun a ha b hb => ?_
      rw [Bool.not_eq_false, checkWhenTag, checkAll_plain] at hall
      rw [List.all_eq_true.mp hall a ha, List.all_eq_true.mp hall b hb]
    have hnegated : checkWhenTag (namedTag "when" true args) ctx = false := by
      by_contra hnone
      refine hmixed fun a ha b hb => ?_
      rw [Bool.not_eq_false, checkWhenTag, checkAll_negated] at hnone
      have hna := List.all_eq_true.mp hnone a ha
      have hnb := List.all_eq_true.mp hnone b hb
      simp only [Bool.not_eq_true'] at hna hnb
      rw [hna, hnb]
    simp [selectCase, whenBranches, checkTagExpr_when, hplain, hnegated]

/-- An environment without middleware. -/
def plainEnv : ExecutionEnv Unit := { registry := fun _ => none }

/-- A request of an admin from outside. -/
def adminOutside : RequestContext := { conditions := fun name => if name = "admin" then some true else none }

/-- With one argument a tag is negated as a whole. -/
theorem tag_negation_iff_single :
    Xor (checkTagExpr plainEnv adminOutside .null (.tag (namedTag "when" false ["admin"])) = true)
      (checkTagExpr plainEnv adminOutside .null (.tag (namedTag "when" true ["admin"])) = true) :=
  (tag_negation_iff plainEnv adminOutside .null ["admin"] (List.cons_ne_nil _ _)).2.2.1.mpr fun a ha b hb => by
    rw [List.mem_singleton.mp ha, List.mem_singleton.mp hb]

/-- For an admin from outside neither `@when(admin, inside)` nor its negation holds. -/
theorem mixed_conditions_fail :
    ¬ ∀ (ctx : RequestContext) (args : List String), args ≠ [] →
      checkWhenTag (namedTag "when" true args) ctx = !checkWhenTag (namedTag "when" false args) ctx := by
  intro h
  exact absurd (h adminOutside ["admin", "inside"] (List.cons_ne_nil _ _)) (by decide)

end WebPipe
