import WebPipe.JsonEquality
import WebPipe.Lib.Text

/-!
# Containment

`deep_contains` of `test_runner.rs`, which decides `output contains …` and the calls of a mock. An object is contained member by
member, an array item by item in any order, a string as a part of the text; any other value has to be equal.
-/

namespace WebPipe

mutual

/-- `deep_contains`. -/
def deepContains : Value → Value → Bool
  | .object ao, .object eo => membersContained ao eo
  | .array aa, .array ea => itemsContained aa ea
  | .string as, .string es => Text.contains es as
  | actual, expected => actual.same expected

/-- Every expected member is contained in the actual one under its key. -/
def membersContained (ao : Object) : Object → Bool
  | [] => true
  | (k, ev) :: rest =>
    (match IndexMap.get ao k with
      | some av => deepContains av ev
      | none => false) && membersContained ao rest

/-- Every expected item is equal to an actual one, or contained in it. -/
def itemsContained (aa : List Value) : List Value → Bool
  | [] => true
  | ev :: rest => (aa.any fun av => av.same ev || deepContains av ev) && itemsContained aa rest

end

/-- A condition `output contains`: the output, or what the filter of the condition gives, contains the expected value. -/
def outputContains (target expected : Value) : Bool := deepContains target expected

/-- A call condition: the target was called, and the arguments of some call contain the expected ones; `calls` is what
`find_calls` returns for the target. -/
def callMatches (calls : Option (List Value)) (expected : Value) : Bool :=
  match calls with
  | some calls => calls.any fun callArgs => deepContains callArgs expected
  | none => false

@[simp] theorem deepContains_null (actual : Value) : deepContains actual .null = actual.same .null := by
  cases actual <;> rfl

@[simp] theorem deepContains_bool (actual : Value) (b : Bool) : deepContains actual (.bool b) = actual.same (.bool b) := by
  cases actual <;> rfl

@[simp] theorem deepContains_number (actual : Value) (n : Number) : deepContains actual (.number n) = actual.same (.number n) := by
  cases actual <;> rfl

theorem membersContained_iff {ao eo : Object} : membersContained ao eo = true ↔
    ∀ p ∈ eo, ∃ av, IndexMap.get ao p.1 = some av ∧ deepContains av p.2 = true := by
  induction eo with
  | nil => simp [membersContained]
  | cons p eo ih =>
    obtain ⟨k, ev⟩ := p
    rw [membersContained, Bool.and_eq_true, ih, List.forall_mem_cons]
    cases IndexMap.get ao k <;> simp

theorem itemsContained_iff {aa ea : List Value} : itemsContained aa ea = true ↔
    ∀ ev ∈ ea, ∃ av ∈ aa, av.same ev = true ∨ deepContains av ev = true := by
  induction ea with
  | nil => simp [itemsContained]
  | cons ev ea ih => simp [itemsContained, ih]

end WebPipe
