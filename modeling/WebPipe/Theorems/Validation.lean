import WebPipe.Middleware.Validate

/-!
# Validation

`validate` leaves the state alone where every rule holds, and replaces it with the error of the first rule that does not, exactly when
the body is an object: a state without one is let through.
-/

namespace WebPipe

/-- The length of a text is within the bounds of a rule. -/
def Rule.FitsLength (rule : Rule) (len : ℕ) : Prop :=
  (∀ min, rule.min = some min → min ≤ len) ∧ ∀ max, rule.max = some max → len ≤ max

/-- What a rule asks of a member of the body: that it is there, of its type, and of its length or shape. A text that is empty is not
there. -/
def Rule.Holds (rule : Rule) (val : Option Value) : Prop :=
  match rule.kind with
  | .string => ∃ s, val = some (.string s) ∧ s ≠ "" ∧ rule.FitsLength s.length
  | .email => ∃ s, val = some (.string s) ∧ s ≠ "" ∧ isEmail s = true
  | .boolean => ∃ b, val = some (.bool b)
  | .number => ∃ n, val = some (.number n)

theorem lengthError_eq_none_iff {rule : Rule} {len : ℕ} : lengthError rule len = none ↔ rule.FitsLength len := by
  rw [lengthError, Option.or_eq_none_iff, Rule.FitsLength]
  apply and_congr
  · cases rule.min with
    | none => simp
    | some min => simp
  · cases rule.max with
    | none => simp
    | some max => simp

/-- The check of a rule fails exactly where the rule does not hold. -/
theorem ruleError_eq_none_iff {rule : Rule} {val : Option Value} : ruleError rule val = none ↔ rule.Holds val := by
  unfold ruleError Rule.Holds
  cases rule.kind with
  | string =>
    rcases val with _ | (_ | _ | _ | s | _ | _) <;> simp
    by_cases hs : s = ""
    · simp [hs]
    · simp [hs, lengthError_eq_none_iff]
  | email =>
    rcases val with _ | (_ | _ | _ | s | _ | _) <;> simp
    by_cases hs : s = ""
    · simp [hs]
    · simp [hs]
  | boolean => rcases val with _ | (_ | _ | _ | s | _ | _) <;> simp
  | number => rcases val with _ | (_ | _ | _ | s | _ | _) <;> simp

/-- The members of the body; none where it is missing or no object. -/
def bodyMembers (state : Value) : Object := ((state.get "body").bind Value.asObject).getD []

/-- The body is an object. -/
def HasBody (state : Value) : Prop := ((state.get "body").bind Value.asObject).isSome

instance (state : Value) : Decidable (HasBody state) := inferInstanceAs (Decidable (_ = true))

/-- The body is an object whose members satisfy every rule. -/
def ValidFor (rules : List Rule) (state : Value) : Prop :=
  HasBody state ∧ ∀ rule ∈ rules, rule.Holds (IndexMap.get (bodyMembers state) rule.field)

/-- The error of the first rule that does not hold. -/
def IsFirstError (rules : List Rule) (state v : Value) : Prop :=
  ∃ pre rule post name message, rules = pre ++ rule :: post ∧
    (∀ r ∈ pre, r.Holds (IndexMap.get (bodyMembers state) r.field)) ∧
    ruleError rule (IndexMap.get (bodyMembers state) rule.field) = some (name, message) ∧ v = makeError rule.field name message

/-- The state is left alone exactly where it is valid, and becomes the error of the first broken rule where it is not. -/
def Validates (config : String) (rules : List Rule) (state : Value) : Prop :=
  (Validate.execute config state = some state ↔ ValidFor rules state) ∧
    (¬ValidFor rules state → ∃ v, Validate.execute config state = some v ∧ IsFirstError rules state v)

/-- Either every rule holds and the state stays, or the error of the first that does not replaces it. -/
theorem checkRules_cases (obj : Object) (state : Value) (rules : List Rule) :
    ((∀ rule ∈ rules, rule.Holds (IndexMap.get obj rule.field)) ∧ checkRules obj state rules = state) ∨
      ∃ pre rule post name message, rules = pre ++ rule :: post ∧ (∀ r ∈ pre, r.Holds (IndexMap.get obj r.field)) ∧
        ruleError rule (IndexMap.get obj rule.field) = some (name, message) ∧
        checkRules obj state rules = makeError rule.field name message := by
  induction rules with
  | nil => exact Or.inl ⟨nofun, rfl⟩
  | cons rule rest ih =>
    cases herror : ruleError rule (IndexMap.get obj rule.field) with
    | some e =>
      refine Or.inr ⟨[], rule, rest, e.1, e.2, rfl, nofun, herror, ?_⟩
      rw [checkRules, herror]
    | none =>
      have hholds := ruleError_eq_none_iff.mp herror
      have hrest : checkRules obj state (rule :: rest) = checkRules obj state rest := by rw [checkRules, herror]
      rw [hrest]
      rcases ih with ⟨hall, hstate⟩ | ⟨pre, broken, post, name, message, rfl, hpre, hbroken, hstate⟩
      · exact Or.inl ⟨List.forall_mem_cons.mpr ⟨hholds, hall⟩, hstate⟩
      · exact Or.inr ⟨rule :: pre, broken, post, name, message, rfl, List.forall_mem_cons.mpr ⟨hholds, hpre⟩, hbroken, hstate⟩

/-- An error has no body. -/
theorem get_makeError (field rule message : String) : (makeError field rule message).get "body" = none := by
  simp [makeError, Value.get, Value.asObject, IndexMap.get]

/-- A rule that has an error does not hold. -/
theorem not_holds_of_ruleError {rule : Rule} {val : Option Value} {e : String × String} (h : ruleError rule val = some e) :
    ¬rule.Holds val := by
  intro hholds
  rw [ruleError_eq_none_iff.mpr hholds] at h
  cases h

/-- A configuration with rules validates a state exactly when the body of the state is an object. -/
theorem validate_iff {config : String} {rules : List Rule} (hrules : parseRules config = some rules) (hne : rules ≠ []) (state : Value) :
    Validates config rules state ↔ HasBody state := by
  have hexecute : Validate.execute config state =
      ((state.get "body").bind Value.asObject).elim (some state) fun obj => some (checkRules obj state rules) := by
    rw [Validate.execute, hrules]
    cases rules with
    | nil => exact absurd rfl hne
    | cons rule rest =>
      dsimp only [Option.bind_eq_bind, Option.bind_some, List.isEmpty_cons]
      rw [if_neg Bool.false_ne_true]
      cases (state.get "body").bind Value.asObject <;> rfl
  cases hbody : (state.get "body").bind Value.asObject with
  | none =>
    refine iff_of_false ?_ (by simp [HasBody, hbody])
    rintro ⟨hunchanged, -⟩
    have hvalid := hunchanged.mp (by rw [hexecute, hbody, Option.elim_none])
    simp [ValidFor, HasBody, hbody] at hvalid
  | some obj =>
    refine iff_of_true ?_ (by simp [HasBody, hbody])
    have hmembers : bodyMembers state = obj := by rw [bodyMembers, hbody]; rfl
    have hhas : HasBody state := by simp [HasBody, hbody]
    rw [hbody, Option.elim_some] at hexecute
    rcases checkRules_cases obj state rules with ⟨hall, hstate⟩ | ⟨pre, rule, post, name, message, hsplit, hpre, hbroken, hstate⟩
    · have hvalid : ValidFor rules state := ⟨hhas, by rw [hmembers]; exact hall⟩
      rw [hstate] at hexecute
      exact ⟨iff_of_true hexecute hvalid, fun h => absurd hvalid h⟩
    · have hinvalid : ¬ValidFor rules state := by
        rintro ⟨-, hall⟩
        rw [hmembers] at hall
        exact not_holds_of_ruleError hbroken (hall rule (by simp [hsplit]))
      rw [hstate] at hexecute
      refine ⟨iff_of_false ?_ hinvalid, fun _ => ⟨_, hexecute, pre, rule, post, name, message, hsplit, ?_, ?_, rfl⟩⟩
      · -- the error has no body, the state has one
        intro hsame
        rw [hexecute, Option.some.injEq] at hsame
        rw [← hsame, get_makeError] at hbody
        cases hbody
      · rw [hmembers]
        exact hpre
      · rw [hmembers]
        exact hbroken

/-- `login: string(3..50)` on a body with a login of two letters. -/
theorem short_login_validated :
    Validates "login: string(3..50)" [{ field := "login", kind := .string, min := some 3, max := some 50 }]
      (.object [("body", .object [("login", .string "ab")])]) :=
  (validate_iff (by decide +kernel) (by simp) _).mpr (by decide)

/-- A state without a body is let through. -/
theorem missing_body_let_through : ¬∀ config rules state, parseRules config = some rules → rules ≠ [] → Validates config rules state := by
  intro h
  have hvalidates := h "login: string(3..50)" [{ field := "login", kind := .string, min := some 3, max := some 50 }] (.object [])
    (by decide +kernel) (by simp)
  exact absurd ((hvalidates.1.mp (by rfl)).1) (by decide)

end WebPipe
