import WebPipe.Executor.Tags
import WebPipe.Lemmas.TagText

/-!
# Operands of tag expressions

A tag expression is a disjunction of conjunctions of tags and of disjunctions in parentheses. The printer keeps the operands of each
operator and their order, and loses how equal operators are grouped; a reading in which both operators are associative does not see that.
-/

namespace WebPipe

/-! ## Readings -/

/-- A way to read expressions in which the grouping of equal operators makes no difference. -/
structure Reading (β : Type) where
  tag : Tag → β
  and : β → β → β
  or : β → β → β
  and_assoc : ∀ a b c, and (and a b) c = and a (and b c)
  or_assoc : ∀ a b c, or (or a b) c = or a (or b c)

/-- What an expression is read as. -/
def Reading.read {β : Type} (R : Reading β) : TagExpr → β
  | .tag t => R.tag t
  | .and left right => R.and (R.read left) (R.read right)
  | .or left right => R.or (R.read left) (R.read right)

/-- Expressions that are the same up to the grouping of equal operators. -/
def Regrouped (e e' : TagExpr) : Prop := ∀ {β : Type} (R : Reading β), R.read e = R.read e'

theorem Regrouped.refl (e : TagExpr) : Regrouped e e := fun _ => rfl

/-- The value of an expression is a reading. -/
def valueReading {σ : Type} (env : ExecutionEnv σ) (ctx : RequestContext) (input : Value) : Reading Bool where
  tag t := checkTag t env ctx input
  and := (· && ·)
  or := (· || ·)
  and_assoc := Bool.and_assoc
  or_assoc := Bool.or_assoc

/-- The reading by values is what the executor computes. -/
theorem read_value {σ : Type} (env : ExecutionEnv σ) (ctx : RequestContext) (input : Value) (e : TagExpr) :
    (valueReading env ctx input).read e = checkTagExpr env ctx input e := by
  induction e with
  | tag t => rfl
  | and l r ihl ihr =>
    rw [Reading.read, ihl, ihr]
    rfl
  | or l r ihl ihr =>
    rw [Reading.read, ihl, ihr]
    rfl

/-- The name that an expression carries is a reading. -/
def nameReading (name : String) : Reading (Option String) where
  tag t := argumentFromTagExpr name (.tag t)
  and := Option.or
  or := Option.or
  and_assoc _ _ _ := Option.or_assoc
  or_assoc _ _ _ := Option.or_assoc

/-- The reading by names is the argument of the tag. -/
theorem read_name (name : String) (e : TagExpr) : (nameReading name).read e = argumentFromTagExpr name e := by
  induction e with
  | tag t => rfl
  | and l r ihl ihr =>
    rw [Reading.read, ihl, ihr]
    rfl
  | or l r ihl ihr =>
    rw [Reading.read, ihl, ihr]
    rfl

/-- Grouping does not change the value of an expression. -/
theorem Regrouped.value {e e' : TagExpr} (h : Regrouped e e') {σ : Type} (env : ExecutionEnv σ) (ctx : RequestContext)
    (input : Value) : checkTagExpr env ctx input e = checkTagExpr env ctx input e' := by
  rw [← read_value, ← read_value]
  exact h _

/-- Grouping does not change the names that an expression carries. -/
theorem Regrouped.name {e e' : TagExpr} (h : Regrouped e e') (name : String) :
    argumentFromTagExpr name e = argumentFromTagExpr name e' := by
  rw [← read_name, ← read_name]
  exact h _

/-! ## Operands -/

/-- The operands of the disjunction that an expression is. -/
def disjuncts : TagExpr → List TagExpr
  | .or left right => disjuncts left ++ disjuncts right
  | .and left right => [.and left right]
  | .tag t => [.tag t]

/-- The operands of the conjunction that an expression is. -/
def conjuncts : TagExpr → List TagExpr
  | .and left right => conjuncts left ++ conjuncts right
  | .or left right => [.or left right]
  | .tag t => [.tag t]

/-- The tags of an expression. -/
def TagExpr.tags : TagExpr → List Tag
  | .tag t => [t]
  | .and left right => left.tags ++ right.tags
  | .or left right => left.tags ++ right.tags

theorem disjuncts_ne_nil (e : TagExpr) : disjuncts e ≠ [] := by
  induction e with
  | tag t => simp [disjuncts]
  | and l r => simp [disjuncts]
  | or l r ihl ihr => simp [disjuncts, ihl]

theorem conjuncts_ne_nil (e : TagExpr) : conjuncts e ≠ [] := by
  induction e with
  | tag t => simp [conjuncts]
  | or l r => simp [conjuncts]
  | and l r ihl ihr => simp [conjuncts, ihl]

/-- The operands of a conjunction are no conjunctions. -/
theorem not_and_of_mem_conjuncts {e l r : TagExpr} : .and l r ∉ conjuncts e := by
  induction e with
  | tag t => simp [conjuncts]
  | or l' r' => simp [conjuncts]
  | and l' r' ihl ihr => simp [conjuncts, ihl, ihr]

/-- The operands of a disjunction have its tags. -/
theorem mem_tags_disjuncts {t : Tag} {e : TagExpr} : t ∈ e.tags ↔ ∃ c ∈ disjuncts e, t ∈ c.tags := by
  induction e with
  | tag t' => simp [disjuncts]
  | and l r => simp [disjuncts]
  | or l r ihl ihr => simp [disjuncts, TagExpr.tags, ihl, ihr, or_and_right, exists_or]

/-- The operands of a conjunction have its tags. -/
theorem mem_tags_conjuncts {t : Tag} {e : TagExpr} : t ∈ e.tags ↔ ∃ c ∈ conjuncts e, t ∈ c.tags := by
  induction e with
  | tag t' => simp [conjuncts]
  | or l r => simp [conjuncts]
  | and l r ihl ihr => simp [conjuncts, TagExpr.tags, ihl, ihr, or_and_right, exists_or]

/-- The values of several operands under an associative operator. -/
def foldOp {β : Type} (op : β → β → β) : List β → Option β
  | [] => none
  | b :: bs => some (bs.foldl op b)

/-- An associative operation goes over two lists as over one. -/
theorem foldOp_append {β : Type} {op : β → β → β} (hassoc : ∀ a b c, op (op a b) c = op a (op b c)) {bs cs : List β} {b c : β}
    (hb : foldOp op bs = some b) (hc : foldOp op cs = some c) : foldOp op (bs ++ cs) = some (op b c) := by
  have : Std.Associative op := ⟨hassoc⟩
  cases bs with
  | nil => cases hb
  | cons b' bs =>
    cases cs with
    | nil => cases hc
    | cons c' cs =>
      cases hb
      cases hc
      rw [List.cons_append, foldOp, List.foldl_append, List.foldl_cons, List.foldl_assoc]

/-- An expression is read as its operands joined by `or`. -/
theorem read_disjuncts {β : Type} (R : Reading β) (e : TagExpr) : foldOp R.or ((disjuncts e).map R.read) = some (R.read e) := by
  induction e with
  | tag t => rfl
  | and l r => rfl
  | or l r ihl ihr =>
    rw [disjuncts, List.map_append]
    exact foldOp_append R.or_assoc ihl ihr

/-- An expression is read as its operands joined by `and`. -/
theorem read_conjuncts {β : Type} (R : Reading β) (e : TagExpr) : foldOp R.and ((conjuncts e).map R.read) = some (R.read e) := by
  induction e with
  | tag t => rfl
  | or l r => rfl
  | and l r ihl ihr =>
    rw [conjuncts, List.map_append]
    exact foldOp_append R.and_assoc ihl ihr

/-- Several operands are the same up to grouping, one by one. -/
theorem map_read_of_regrouped {xs ys : List TagExpr} (h : List.Forall₂ Regrouped ys xs) {β : Type} (R : Reading β) :
    ys.map R.read = xs.map R.read := by
  induction h with
  | nil => rfl
  | cons hhead _ ih => rw [List.map_cons, List.map_cons, hhead R, ih]

/-- The expression that the parser makes of the operands of a disjunction. -/
theorem regrouped_or {e y : TagExpr} {ys : List TagExpr} (h : List.Forall₂ Regrouped (y :: ys) (disjuncts e)) :
    Regrouped (ys.foldl .or y) e := by
  intro β R
  have hfold : R.read (ys.foldl .or y) = (ys.map R.read).foldl R.or (R.read y) := by
    clear h
    induction ys generalizing y with
    | nil => rfl
    | cons z zs ih => exact ih
  have hread := read_disjuncts R e
  rw [← map_read_of_regrouped h R] at hread
  rw [hfold]
  exact Option.some.inj hread

/-- The expression that the parser makes of the operands of a conjunction. -/
theorem regrouped_and {e y : TagExpr} {ys : List TagExpr} (h : List.Forall₂ Regrouped (y :: ys) (conjuncts e)) :
    Regrouped (ys.foldl .and y) e := by
  intro β R
  have hfold : R.read (ys.foldl .and y) = (ys.map R.read).foldl R.and (R.read y) := by
    clear h
    induction ys generalizing y with
    | nil => rfl
    | cons z zs ih => exact ih
  have hread := read_conjuncts R e
  rw [← map_read_of_regrouped h R] at hread
  rw [hfold]
  exact Option.some.inj hread

/-! ## The printed operands -/

/-- Texts with a word between them. -/
def joined (sep : List Char) : List (List Char) → List Char
  | [] => []
  | [t] => t
  | t :: t' :: ts => t ++ (sep ++ joined sep (t' :: ts))

/-- Two joined lists are joined. -/
theorem joined_append (sep : List Char) {ts ts' : List (List Char)} (h : ts ≠ []) (h' : ts' ≠ []) :
    joined sep (ts ++ ts') = joined sep ts ++ (sep ++ joined sep ts') := by
  induction ts with
  | nil => exact absurd rfl h
  | cons t ts ih =>
    cases ts with
    | nil =>
      cases ts' with
      | nil => exact absurd rfl h'
      | cons t' ts' => rfl
    | cons t₂ ts =>
      rw [List.cons_append, List.cons_append, joined, ← List.cons_append, ih (by simp), joined]
      simp

theorem length_le_joined {sep t : List Char} {ts : List (List Char)} (h : t ∈ ts) : t.length ≤ (joined sep ts).length := by
  induction ts with
  | nil => cases h
  | cons t' ts ih =>
    cases ts with
    | nil =>
      rw [List.mem_singleton] at h
      rw [h, joined]
    | cons t'' ts =>
      rw [joined, List.length_append, List.length_append]
      rcases List.mem_cons.mp h with rfl | h
      · omega
      · have := ih h
        omega

section Printed

variable (u : AlphanumericTable)

/-- An operand as it is printed. -/
def operandText (e : TagExpr) : List Char := displayOperand e (displayTagExpr u e)

/-- An expression is printed as its disjuncts. -/
theorem displayTagExpr_disjuncts (e : TagExpr) :
    displayTagExpr u e = joined " or ".toList ((disjuncts e).map (operandText u)) := by
  induction e with
  | tag t => rfl
  | and l r => rfl
  | or l r ihl ihr =>
    rw [disjuncts, List.map_append, joined_append, ← ihl, ← ihr]
    · rfl
    · simpa using disjuncts_ne_nil l
    · simpa using disjuncts_ne_nil r

/-- An operand is printed as its conjuncts. -/
theorem operandText_conjuncts (e : TagExpr) : operandText u e = joined " and ".toList ((conjuncts e).map (operandText u)) := by
  induction e with
  | tag t => rfl
  | or l r => rfl
  | and l r ihl ihr =>
    rw [conjuncts, List.map_append, joined_append, ← ihl, ← ihr]
    · rfl
    · simpa using conjuncts_ne_nil l
    · simpa using conjuncts_ne_nil r

end Printed

end WebPipe
