import WebPipe.Testing.Containment

/-!
# Containment is a preorder

A test that expects a part of what another expects passes where the other does. The statements are about the values that `serde_json`
can hold: no object in them has a key twice.
-/

namespace WebPipe

open IndexMap

/-- A JSON value as `serde_json` holds it. -/
structure JsonValue where
  value : Value
  keyed : value.Keyed

/-! ## Containment of strings -/

/-- A text contains itself. -/
theorem contains_self (s : String) : Text.contains s s = true := Text.contains_iff_infix.mpr (List.infix_refl _)

/-- Containment of texts is transitive. -/
theorem contains_trans {r s t : String} (hrs : Text.contains s r = true) (hst : Text.contains t s = true) :
    Text.contains t r = true := by
  rw [Text.contains_iff_infix] at hrs hst ⊢
  exact hst.trans hrs

/-! ## Equal values contain each other -/

/-- A value contains what is equal to it. -/
theorem contains_of_same {actual expected : Value} (ha : actual.Keyed) (he : expected.Keyed) (h : actual.same expected = true) :
    deepContains actual expected = true := by
  induction he generalizing actual with
  | null | bool | number => simpa using h
  | string s =>
    cases actual with
    | string t =>
      simp only [Value.same, decide_eq_true_eq] at h
      rw [deepContains, h]
      exact contains_self s
    | _ => simp [Value.same] at h
  | @array items hitems ih =>
    cases actual with
    | array actuals =>
      rw [Value.same] at h
      rw [deepContains, itemsContained_iff]
      intro ev hev
      obtain ⟨av, hav, hsame⟩ := Value.exists_same_of_item h hev
      exact ⟨av, hav, Or.inl hsame⟩
    | _ => simp [Value.same] at h
  | @object members hdistinct hmembers ih =>
    cases ha with
    | @object actuals hactuals hkeyed =>
      rw [Value.same, Bool.and_eq_true, decide_eq_true_eq] at h
      rw [deepContains, membersContained_iff]
      intro p hp
      obtain ⟨v, hv, hsame⟩ := Value.exists_same_of_mem hactuals hdistinct h.1 h.2 hp
      have hmem : (p.1, v) ∈ actuals := (get_eq_some_iff hactuals).mp hv
      exact ⟨v, hv, ih p hp (hkeyed _ hmem) hsame⟩
    | _ => simp [Value.same] at h

/-- A value contains itself. -/
theorem contains_refl {v : Value} (h : v.Keyed) : deepContains v v = true := contains_of_same h h (Value.same_refl h)

/-! ## Transitivity -/

/-- An item that an array contains is contained in one of its items: an equal item contains it too. -/
theorem exists_contains_of_item {aa ea : List Value} (haa : ∀ v ∈ aa, v.Keyed) (hea : ∀ v ∈ ea, v.Keyed)
    (h : itemsContained aa ea = true) {ev : Value} (hev : ev ∈ ea) : ∃ av ∈ aa, deepContains av ev = true := by
  obtain ⟨av, hav, hsame | hcontains⟩ := itemsContained_iff.mp h ev hev
  · exact ⟨av, hav, contains_of_same (haa av hav) (hea ev hev) hsame⟩
  · exact ⟨av, hav, hcontains⟩

/-- Only null is the same as null. -/
theorem same_null_iff {v : Value} : v.same .null = true ↔ v = .null := by
  cases v <;> simp [Value.same]

/-- Only a truth value is the same as itself. -/
theorem same_bool_iff {v : Value} {b : Bool} : v.same (.bool b) = true ↔ v = .bool b := by
  cases v <;> simp [Value.same]

/-- Only numbers are the same as numbers. -/
theorem same_number_iff {v : Value} {n : Number} : v.same (.number n) = true ↔ ∃ m, v = .number m ∧ m.same n = true := by
  cases v <;> simp [Value.same]

/-- What is contained in a part of a value is contained in the value. The induction is on the smallest of the three. -/
theorem deepContains_trans {a b c : Value} (ha : a.Keyed) (hb : b.Keyed) (hc : c.Keyed) (hab : deepContains a b = true)
    (hbc : deepContains b c = true) : deepContains a c = true := by
  induction hc generalizing a b with
  | null =>
    rw [deepContains_null, same_null_iff] at hbc
    rwa [hbc] at hab
  | bool =>
    rw [deepContains_bool, same_bool_iff] at hbc
    rwa [hbc] at hab
  | number n =>
    rw [deepContains_number, same_number_iff] at hbc
    obtain ⟨m, rfl, hmn⟩ := hbc
    rw [deepContains_number, same_number_iff] at hab ⊢
    obtain ⟨l, rfl, hlm⟩ := hab
    exact ⟨l, rfl, Number.same_trans hlm hmn⟩
  | string s =>
    cases b with
    | string t =>
      cases a with
      | string u =>
        rw [deepContains] at hab hbc ⊢
        exact contains_trans hab hbc
      | _ => simp [deepContains, Value.same] at hab
    | _ => simp [deepContains, Value.same] at hbc
  | @array items hitems ih =>
    cases hb with
    | @array middle hmiddle =>
      cases ha with
      | @array outer houter =>
        rw [deepContains] at hab hbc
        rw [deepContains, itemsContained_iff]
        intro cv hcv
        obtain ⟨bv, hbv, hbc⟩ := exists_contains_of_item hmiddle hitems hbc hcv
        obtain ⟨av, hav, hab⟩ := exists_contains_of_item houter hmiddle hab hbv
        exact ⟨av, hav, Or.inr (ih cv hcv (houter av hav) (hmiddle bv hbv) hab hbc)⟩
      | _ => simp [deepContains, Value.same] at hab
    | _ => simp [deepContains, Value.same] at hbc
  | @object members hdistinct hmembers ih =>
    cases hb with
    | @object middle hmiddle hmiddleKeyed =>
      cases ha with
      | @object outer houter houterKeyed =>
        rw [deepContains, membersContained_iff] at hab hbc ⊢
        intro p hp
        obtain ⟨bv, hbv, hbc⟩ := hbc p hp
        have hbmem : (p.1, bv) ∈ middle := (get_eq_some_iff hmiddle).mp hbv
        obtain ⟨av, hav, hab⟩ := hab _ hbmem
        have hamem : (p.1, av) ∈ outer := (get_eq_some_iff houter).mp hav
        exact ⟨av, hav, ih p hp (houterKeyed _ hamem) (hmiddleKeyed _ hbmem) hab hbc⟩
      | _ => simp [deepContains, Value.same] at hab
    | _ => simp [deepContains, Value.same] at hbc

/-! ## The preorder -/

/-- Containment is reflexive and transitive, so a condition on the output or on the calls of a mock that passes also passes for
anything that its expected value contains. -/
theorem containment_is_preorder :
    (∀ a : JsonValue, deepContains a.value a.value = true) ∧
      (∀ a b c : JsonValue, deepContains a.value b.value = true → deepContains b.value c.value = true →
        deepContains a.value c.value = true) ∧
      (∀ target expected weaker : JsonValue, deepContains expected.value weaker.value = true →
        outputContains target.value expected.value = true → outputContains target.value weaker.value = true) ∧
      ∀ (calls : Option (List JsonValue)) (expected weaker : JsonValue), deepContains expected.value weaker.value = true →
        callMatches (calls.map fun l => l.map JsonValue.value) expected.value = true →
          callMatches (calls.map fun l => l.map JsonValue.value) weaker.value = true := by
  have htrans : ∀ a b c : JsonValue, deepContains a.value b.value = true → deepContains b.value c.value = true →
      deepContains a.value c.value = true := fun a b c => deepContains_trans a.keyed b.keyed c.keyed
  refine ⟨fun a => contains_refl a.keyed, htrans, fun target expected weaker hweaker hpass => ?_, ?_⟩
  · exact htrans target expected weaker hpass hweaker
  · intro calls expected weaker hweaker hpass
    cases calls with
    | none => exact hpass
    | some calls =>
      simp only [Option.map_some, callMatches, List.any_map, List.any_eq_true, Function.comp] at hpass ⊢
      obtain ⟨call, hcall, hpass⟩ := hpass
      exact ⟨call, hcall, htrans call expected weaker hpass hweaker⟩

/-- An object with one member, a list of truth values. -/
def flags (l : List Bool) : JsonValue where
  value := .object [("flags", .array (l.map .bool))]
  keyed := .object (by simp [Distinct]) fun p hp => by
    rw [List.mem_singleton.mp hp]
    refine .array fun v hv => ?_
    obtain ⟨b, -, rfl⟩ := List.mem_map.mp hv
    exact .bool b

/-- Items may stand in another order, and more than once. -/
theorem containment_is_preorder_flags : deepContains (flags [true, false]).value (flags [true]).value = true :=
  containment_is_preorder.2.1 (flags [true, false]) (flags [false, true, false]) (flags [true]) (by decide) (by decide)

end WebPipe
