import WebPipe.JsonEquality
import WebPipe.JsonText

/-!
# The text of a key

A hash map that compares keys as values and hashes their texts finds a key only under itself: equal values with one text are one value.
-/

namespace WebPipe
namespace Value

/-- A value is found again in front of what follows it: of two equal values with one text, each is the other. -/
def ReadsBack (b : Value) : Prop :=
  ∀ a r r', a.same b = true → (toJson a).toList ++ r = (toJson b).toList ++ r' → a = b ∧ r = r'

/-- Equal floats with one text are one. -/
theorem readsBack_number (n : Number) : ReadsBack (.number n) := by
  intro a r r' hsame htext
  cases a with
  | number m =>
    have hmn : m = n := by
      cases m <;> cases n <;> simp only [same, Number.same, decide_eq_true_eq, Bool.or_eq_true, Bool.and_eq_true,
        Bool.false_eq_true] at hsame
      · rw [hsame]
      · rcases hsame with rfl | ⟨hx, hy⟩
        · rfl
        · next x y =>
          -- one zero starts with a sign, the other with a digit
          simp only [FloatText.isZero, decide_eq_true_eq] at hx hy
          obtain ⟨tx, _⟩ := x
          obtain ⟨ty, _⟩ := y
          dsimp only at hx hy
          simp only [toJson, numberText] at htext
          rcases hx with rfl | rfl <;> rcases hy with rfl | rfl
          · rfl
          · exact absurd (List.cons.inj htext).1 (by decide)
          · exact absurd (List.cons.inj htext).1 (by decide)
          · rfl
    subst hmn
    exact ⟨rfl, List.append_cancel_left htext⟩
  | _ => cases hsame

/-- The items of two equal arrays, one by one. -/
theorem items_readBack {xs ys : List Value} (hsame : List.Forall₂ (fun x y => same x y = true) xs ys) (hys : ∀ y ∈ ys, ReadsBack y)
    {r r' : List Char} (htext : (itemsToJson xs).toList ++ r = (itemsToJson ys).toList ++ r') : xs = ys ∧ r = r' := by
  induction hsame with
  | nil => exact ⟨rfl, htext⟩
  | @cons x y xs ys hxy hrest ih =>
    have hy := hys y List.mem_cons_self
    cases hrest with
    | nil =>
      obtain ⟨rfl, hr⟩ := hy _ _ _ hxy htext
      exact ⟨rfl, hr⟩
    | cons hxy' hrest =>
      simp only [itemsToJson, String.toList_append, List.append_assoc] at htext
      obtain ⟨rfl, hr⟩ := hy _ _ _ hxy htext
      obtain ⟨hlist, hr⟩ := ih (List.forall_mem_cons.mp hys).2 (List.cons.inj hr).2
      rw [hlist]
      exact ⟨rfl, hr⟩

/-- The members of two equal objects with one text stand in one order. -/
theorem members_readBack {members : Object} (hdistinct : IndexMap.Distinct members) (hmembers : ∀ p ∈ members, ReadsBack p.2)
    {m m' : Object} (hlength : m.length = m'.length) (hm' : m' ⊆ members)
    (hsame : ∀ p ∈ m, ∃ w, IndexMap.get members p.1 = some w ∧ same p.2 w = true) {r r' : List Char}
    (htext : (membersToJson m).toList ++ r = (membersToJson m').toList ++ r') : m = m' ∧ r = r' := by
  -- the first members have one key, and so one value
  have hfirst : ∀ {k k' : String} {v v' : Value} {t t' : List Char}, (k', v') ∈ members →
      (∃ w, IndexMap.get members k = some w ∧ same v w = true) →
      (quote k).toList ++ (':' :: ((toJson v).toList ++ t)) = (quote k').toList ++ (':' :: ((toJson v').toList ++ t')) →
      k = k' ∧ v = v' ∧ t = t' := by
    intro k k' v v' t t' hin hw heq
    have hread := JsonText.string_quote k (':' :: ((toJson v).toList ++ t))
    rw [heq, JsonText.string_quote] at hread
    obtain ⟨hk, hrest⟩ := Prod.mk.inj (Except.ok.inj hread)
    obtain ⟨w, hget, hvw⟩ := hw
    rw [← hk, (IndexMap.get_eq_some_iff hdistinct).mpr hin] at hget
    cases hget
    obtain ⟨hv, ht⟩ := hmembers _ hin _ _ _ hvw (List.cons.inj hrest).2.symm
    exact ⟨hk.symm, hv, ht⟩
  induction m generalizing m' with
  | nil =>
    obtain rfl := List.length_eq_zero_iff.mp hlength.symm
    exact ⟨rfl, htext⟩
  | cons p m ih =>
    obtain ⟨k, v⟩ := p
    obtain _ | ⟨⟨k', v'⟩, m'⟩ := m'
    · cases hlength
    obtain ⟨hp, hsame⟩ := List.forall_mem_cons.mp hsame
    have hin : (k', v') ∈ members := hm' List.mem_cons_self
    rcases m with _ | ⟨q, m⟩ <;> rcases m' with _ | ⟨q', m'⟩
    · simp only [membersToJson, String.toList_append, List.append_assoc] at htext
      obtain ⟨rfl, rfl, hr⟩ := hfirst hin hp htext
      exact ⟨rfl, hr⟩
    · cases hlength
    · cases hlength
    · simp only [membersToJson, String.toList_append, List.append_assoc] at htext
      obtain ⟨rfl, rfl, hr⟩ := hfirst hin hp htext
      obtain ⟨hlist, hr⟩ := ih (Nat.succ.inj hlength) (List.subset_of_cons_subset hm') hsame (List.cons.inj hr).2
      rw [hlist]
      exact ⟨rfl, hr⟩

theorem Keyed.readsBack {b : Value} (hb : b.Keyed) : ReadsBack b := by
  induction hb with
  | number n => exact readsBack_number n
  | array _ ih =>
    intro a r r' hsame htext
    cases a with
    | array xs =>
      simp only [toJson, String.toList_append, List.append_assoc] at htext
      obtain ⟨rfl, hr⟩ := items_readBack (itemsSame_iff.mp hsame) ih (List.cons.inj htext).2
      exact ⟨rfl, (List.cons.inj hr).2⟩
    | _ => cases hsame
  | object hdistinct _ ih =>
    intro a r r' hsame htext
    cases a with
    | object m =>
      rw [same, Bool.and_eq_true, decide_eq_true_eq, membersSame_iff] at hsame
      simp only [toJson, String.toList_append, List.append_assoc] at htext
      obtain ⟨rfl, hr⟩ := members_readBack hdistinct ih hsame.1 (List.Subset.refl _) hsame.2 (List.cons.inj htext).2
      exact ⟨rfl, (List.cons.inj hr).2⟩
    | _ => cases hsame
  | _ =>
    intro a r r' hsame htext
    cases a <;> simp only [same, decide_eq_true_eq, Bool.false_eq_true] at hsame
    all_goals
      try subst hsame
      exact ⟨rfl, List.append_cancel_left htext⟩

/-- Equal values with one text are one value. -/
theorem eq_of_same_of_toJson {a b : Value} (hb : b.Keyed) (hsame : a.same b = true) (htext : a.toJson = b.toJson) : a = b := by
  refine (hb.readsBack a [] [] hsame ?_).1
  rw [htext]

end Value
end WebPipe
