import Mathlib.Data.List.Perm.Subperm
import Mathlib.Data.List.Forall2
import WebPipe.Json

/-!
# Equality of JSON values

`PartialEq` of `serde_json::Value`: numbers are compared with their kind, objects without regard to the order of their members.
-/

namespace WebPipe

/-- The two zeros of `f64` are equal to each other. -/
def FloatText.isZero (x : FloatText) : Bool := decide (x.text = "0.0" ∨ x.text = "-0.0")

/-- `PartialEq` of `serde_json::Number`: an integer equals no float. -/
def Number.same : Number → Number → Bool
  | .int a, .int b => decide (a = b)
  | .float x, .float y => decide (x = y) || (x.isZero && y.isZero)
  | _, _ => false

theorem Number.same_refl (n : Number) : n.same n = true := by
  cases n <;> simp [Number.same]

theorem Number.same_trans {l m n : Number} (hlm : l.same m = true) (hmn : m.same n = true) : l.same n = true := by
  cases l <;> cases m <;> cases n <;> simp only [Number.same, decide_eq_true_eq, Bool.or_eq_true, Bool.and_eq_true,
    Bool.false_eq_true] at hlm hmn ⊢
  · exact hlm.trans hmn
  · rcases hlm with rfl | ⟨hl, hm⟩
    · exact hmn
    · rcases hmn with rfl | ⟨-, hn⟩
      · exact Or.inr ⟨hl, hm⟩
      · exact Or.inr ⟨hl, hn⟩

namespace Value

mutual

/-- `PartialEq` of `serde_json::Value`. -/
def same : Value → Value → Bool
  | .null, .null => true
  | .bool a, .bool b => decide (a = b)
  | .number a, .number b => a.same b
  | .string a, .string b => decide (a = b)
  | .array xs, .array ys => itemsSame xs ys
  | .object m, .object m' => decide (m.length = m'.length) && membersSame m m'
  | _, _ => false

/-- Arrays are equal item by item. -/
def itemsSame : List Value → List Value → Bool
  | [], [] => true
  | x :: xs, y :: ys => same x y && itemsSame xs ys
  | _, _ => false

/-- Every member has an equal one in the other object. -/
def membersSame : Object → Object → Bool
  | [], _ => true
  | (k, v) :: rest, m' =>
    (match IndexMap.get m' k with
      | some w => same v w
      | none => false) && membersSame rest m'

end

theorem membersSame_eq (m m' : Object) : membersSame m m' =
    m.all fun p => match IndexMap.get m' p.1 with
      | some w => same p.2 w
      | none => false := by
  induction m with
  | nil => rfl
  | cons p m ih =>
    obtain ⟨k, v⟩ := p
    rw [membersSame, ih, List.all_cons]

/-! ## Values with distinct keys -/

/-- A value that `serde_json` can hold: no object in it has a key twice. -/
inductive Keyed : Value → Prop
  | null : Keyed .null
  | bool (b : Bool) : Keyed (.bool b)
  | number (n : Number) : Keyed (.number n)
  | string (s : String) : Keyed (.string s)
  | array {items : List Value} (hitems : ∀ v ∈ items, Keyed v) : Keyed (.array items)
  | object {members : Object} (hdistinct : IndexMap.Distinct members) (hmembers : ∀ p ∈ members, Keyed p.2) :
      Keyed (.object members)

/-- Members are the same when each has an equal one under its key. -/
theorem membersSame_iff {m m' : Object} : membersSame m m' = true ↔
    ∀ p ∈ m, ∃ w, IndexMap.get m' p.1 = some w ∧ same p.2 w = true := by
  rw [membersSame_eq, List.all_eq_true]
  refine forall₂_congr fun p _ => ?_
  cases IndexMap.get m' p.1 <;> simp

/-- Items are the same one by one. -/
theorem itemsSame_iff {xs ys : List Value} : itemsSame xs ys = true ↔ List.Forall₂ (fun x y => same x y = true) xs ys := by
  induction xs generalizing ys with
  | nil => cases ys <;> simp [itemsSame]
  | cons x xs ih => cases ys <;> simp [itemsSame, ih]

/-- Of two equal arrays each item of the second has an equal one in the first. -/
theorem exists_same_of_item {xs ys : List Value} (h : itemsSame xs ys = true) {y : Value} (hy : y ∈ ys) :
    ∃ x ∈ xs, same x y = true := by
  induction itemsSame_iff.mp h with
  | nil => cases hy
  | @cons x y' xs ys hsame hrest ih =>
    rcases List.mem_cons.mp hy with rfl | hy
    · exact ⟨x, List.mem_cons_self, hsame⟩
    · obtain ⟨x', hx', hsame'⟩ := ih (itemsSame_iff.mpr hrest) hy
      exact ⟨x', List.mem_cons_of_mem _ hx', hsame'⟩

/-- A value is the same as itself. -/
theorem same_refl {v : Value} (h : v.Keyed) : v.same v = true := by
  induction h with
  | null => rfl
  | bool b => simp [same]
  | number n => simp [same, Number.same_refl]
  | string s => simp [same]
  | array _ ih =>
    rw [same, itemsSame_iff, List.forall₂_same]
    exact ih
  | object hdistinct _ ih =>
    rw [same, decide_eq_true rfl, Bool.true_and, membersSame_iff]
    intro p hp
    exact ⟨p.2, (IndexMap.get_eq_some_iff hdistinct).mpr hp, ih p hp⟩

/-- Of two equal objects each member of the second has an equal one in the first: they have as many members, and every key of the
first is one of the second. -/
theorem exists_same_of_mem {m m' : Object} (hm : IndexMap.Distinct m) (hm' : IndexMap.Distinct m') (hlength : m.length = m'.length)
    (h : membersSame m m' = true) {p : String × Value} (hp : p ∈ m') :
    ∃ v, IndexMap.get m p.1 = some v ∧ same v p.2 = true := by
  have hsame := membersSame_iff.mp h
  have hsub : m.map Prod.fst ⊆ m'.map Prod.fst := by
    intro k hk
    obtain ⟨q, hq, rfl⟩ := List.mem_map.mp hk
    obtain ⟨w, hw, -⟩ := hsame q hq
    exact List.mem_map.mpr ⟨(q.1, w), (IndexMap.get_eq_some_iff hm').mp hw, rfl⟩
  have hperm : (m.map Prod.fst).Perm (m'.map Prod.fst) :=
    (List.subperm_of_subset hm hsub).perm_of_length_le (by simp [hlength])
  obtain ⟨q, hq, hkey⟩ := List.mem_map.mp (hperm.mem_iff.mpr (List.mem_map.mpr ⟨p, hp, rfl⟩))
  obtain ⟨w, hw, hqw⟩ := hsame q hq
  rw [hkey, (IndexMap.get_eq_some_iff hm').mpr hp] at hw
  cases hw
  refine ⟨q.2, ?_, hqw⟩
  rw [← hkey]
  exact (IndexMap.get_eq_some_iff hm).mpr hq

end Value

end WebPipe
