import Mathlib.Logic.Relation
import Mathlib.Order.WellFounded

/-!
# Search without a memory

A search that goes through the items of a node in order, stops at the first hit, and goes into every node that an item refers to,
however often it has been there. It comes back without a hit exactly when there is neither a hit nor a cycle to be reached, and it
comes back at all exactly when it does not run into an infinite chain of references.
-/

namespace Search

variable {ν α : Type*}

/-- What a node holds: a hit, or a reference to a node. -/
inductive Item (ν : Type*) where
  | hit
  | ref (v : ν)

/-- The first answer of `true`; no answer where one is missing before it. -/
def firstTrue (f : α → Option Bool) : List α → Option Bool
  | [] => some false
  | a :: rest =>
    match f a with
    | none => none
    | some true => some true
    | some false => firstTrue f rest

/-- What an item answers. -/
def Item.answer (ask : ν → Option Bool) : Item ν → Option Bool
  | hit => some true
  | ref v => ask v

/-- The search, to a depth of references. -/
def search (items : ν → List (Item ν)) : ℕ → ν → Option Bool
  | 0, _ => none
  | n + 1, v => firstTrue (Item.answer (search items n)) (items v)

/-! ## First answers -/

section FirstTrue

variable {f g : α → Option Bool} {l l₁ l₂ : List α}

/-- A search goes on in the second list where the first has no hit. -/
theorem firstTrue_append (f : α → Option Bool) (l₁ l₂ : List α) :
    firstTrue f (l₁ ++ l₂) = (firstTrue f l₁).bind (fun b => if b then some true else firstTrue f l₂) := by
  induction l₁ with
  | nil => rfl
  | cons a l₁ ih =>
    rw [List.cons_append, firstTrue, firstTrue]
    rcases f a with _ | _ | _
    · rfl
    · exact ih
    · rfl

/-- No hit was found when every item answered so. -/
theorem firstTrue_eq_false_iff : firstTrue f l = some false ↔ ∀ a ∈ l, f a = some false := by
  induction l with
  | nil => simp [firstTrue]
  | cons a l ih =>
    rw [firstTrue]
    rcases hf : f a with _ | _ | _ <;> simp [hf, ih]

/-- What a question answers, a better informed one answers as well. -/
theorem firstTrue_mono (h : ∀ a b, f a = some b → g a = some b) {b : Bool} (hl : firstTrue f l = some b) :
    firstTrue g l = some b := by
  induction l with
  | nil => exact hl
  | cons a l ih =>
    rw [firstTrue] at hl ⊢
    rcases hf : f a with _ | _ | _
    · rw [hf] at hl
      cases hl
    · rw [hf] at hl
      rw [h a false hf]
      exact ih hl
    · rw [hf] at hl
      rw [h a true hf]
      exact hl

theorem firstTrue_congr (h : ∀ a ∈ l, f a = g a) : firstTrue f l = firstTrue g l := by
  induction l with
  | nil => rfl
  | cons a l ih =>
    rw [firstTrue, firstTrue, h a List.mem_cons_self, ih fun x hx => h x (List.mem_cons_of_mem _ hx)]

/-- Going through the items of the items, one after another. -/
theorem firstTrue_flatMap {β : Type*} (f : β → Option Bool) (g : α → List β) (l : List α) :
    firstTrue f (l.flatMap g) = firstTrue (fun a => firstTrue f (g a)) l := by
  induction l with
  | nil => rfl
  | cons a l ih =>
    rw [List.flatMap_cons, firstTrue_append, firstTrue, ih]
    rcases firstTrue f (g a) with _ | _ | _ <;> rfl

end FirstTrue

/-! ## The graph -/

section Graph

variable (items : ν → List (Item ν))

/-- A node holds a reference to another. -/
def Refers (v u : ν) : Prop := .ref u ∈ items v

/-- A node holds a hit. -/
def Hits (v : ν) : Prop := .hit ∈ items v

/-- A node is reached from another through references. -/
def Reaches : ν → ν → Prop := Relation.ReflTransGen (Refers items)

/-- From the node there is neither a hit nor an infinite chain of references to be reached. -/
def Quiet (v : ν) : Prop := Acc (fun u v => Refers items v u) v ∧ ∀ u, Reaches items v u → ¬ Hits items u

/-- The search comes to the second node from the first: before the reference there are only references to quiet nodes. -/
def Visits (v u : ν) : Prop := ∃ pre post, items v = pre ++ .ref u :: post ∧ ∀ i ∈ pre, ∃ q, i = .ref q ∧ Quiet items q

variable {items}

/-- What a quiet node refers to is quiet. -/
theorem Quiet.of_refers {v u : ν} (h : Quiet items v) (hu : Refers items v u) : Quiet items u :=
  ⟨h.1.inv hu, fun x hx => h.2 x (.head hu hx)⟩

/-- A node is quiet when it holds nothing but references to quiet nodes. -/
theorem quiet_of_items {v : ν} (h : ∀ i ∈ items v, ∃ u, i = .ref u ∧ Quiet items u) : Quiet items v := by
  refine ⟨⟨v, ?_⟩, ?_⟩
  · intro u hu
    obtain ⟨q, he, hq⟩ := h _ hu
    cases he
    exact hq.1
  · intro u hu
    rcases Relation.ReflTransGen.cases_head hu with rfl | ⟨x, hx, hxu⟩
    · intro hhit
      obtain ⟨q, he, -⟩ := h _ hhit
      cases he
    · obtain ⟨q, he, hq⟩ := h _ hx
      cases he
      exact hq.2 u hxu

/-! ## The search -/

/-- A deeper search answers what a shallower one does. -/
theorem search_mono {n m : ℕ} (hnm : n ≤ m) {v : ν} {b : Bool} (h : search items n v = some b) :
    search items m v = some b := by
  induction n generalizing m v b with
  | zero => cases h
  | succ n ih =>
    obtain ⟨m, rfl⟩ : ∃ k, m = k + 1 := ⟨m - 1, by omega⟩
    refine firstTrue_mono ?_ h
    intro i b hi
    cases i with
    | hit => exact hi
    | ref u => exact ih (by omega) hi

/-- Two searches that end agree. -/
theorem search_unique {n m : ℕ} {v : ν} {b b' : Bool} (h : search items n v = some b) (h' : search items m v = some b') :
    b = b' := by
  have h₁ := search_mono (Nat.le_max_left n m) h
  rw [search_mono (Nat.le_max_right n m) h'] at h₁
  exact (Option.some.inj h₁).symm

/-- A search that comes back without a hit started at a quiet node. -/
theorem quiet_of_search {n : ℕ} {v : ν} (h : search items n v = some false) : Quiet items v := by
  induction n generalizing v with
  | zero => cases h
  | succ n ih =>
    refine quiet_of_items fun i hi => ?_
    have hanswer := firstTrue_eq_false_iff.mp h i hi
    cases i with
    | hit => cases hanswer
    | ref u => exact ⟨u, rfl, ih hanswer⟩

/-- Answers that each item has at some depth they have at one depth. -/
theorem exists_depth {l : List (Item ν)} (h : ∀ i ∈ l, ∃ n, i.answer (search items n) = some false) :
    ∃ n, ∀ i ∈ l, i.answer (search items n) = some false := by
  induction l with
  | nil => exact ⟨0, nofun⟩
  | cons i l ih =>
    obtain ⟨n, hn⟩ := h i List.mem_cons_self
    obtain ⟨m, hm⟩ := ih fun x hx => h x (List.mem_cons_of_mem _ hx)
    have hup : ∀ k ≤ max n m, ∀ x : Item ν, x.answer (search items k) = some false →
        x.answer (search items (max n m)) = some false := by
      intro k hk x hx
      cases x with
      | hit => exact hx
      | ref u => exact search_mono hk hx
    refine ⟨max n m, fun x hx => ?_⟩
    rcases List.mem_cons.mp hx with rfl | hx
    · exact hup n (Nat.le_max_left n m) _ hn
    · exact hup m (Nat.le_max_right n m) _ (hm x hx)

/-- The search comes back without a hit exactly when there is neither a hit nor a cycle to be reached. -/
theorem search_false_iff {v : ν} : (∃ n, search items n v = some false) ↔ Quiet items v := by
  constructor
  · rintro ⟨n, h⟩
    exact quiet_of_search h
  · rintro ⟨hacc, hno⟩
    induction hacc with
    | intro v _ ih =>
      have hitems : ∀ i ∈ items v, ∃ n, i.answer (search items n) = some false := by
        intro i hi
        cases i with
        | hit => exact absurd hi (hno v .refl)
        | ref u => exact ih u hi fun x hx => hno x (.head hi hx)
      obtain ⟨n, hn⟩ := exists_depth hitems
      exact ⟨n + 1, firstTrue_eq_false_iff.mpr hn⟩

/-- The rest of a node's items is answered when everything that the search comes to is. -/
theorem firstTrue_total {v : ν} (h : ∀ u, Visits items v u → ∃ n b, search items n u = some b) {pre rest : List (Item ν)}
    (hitems : items v = pre ++ rest) (hpre : ∀ i ∈ pre, ∃ q, i = .ref q ∧ Quiet items q) :
    ∃ n b, firstTrue (Item.answer (search items n)) rest = some b := by
  induction rest generalizing pre with
  | nil => exact ⟨0, false, rfl⟩
  | cons i rest ih =>
    cases i with
    | hit => exact ⟨0, true, rfl⟩
    | ref u =>
      obtain ⟨n, b, hu⟩ := h u ⟨pre, rest, hitems, hpre⟩
      cases b with
      | true =>
        refine ⟨n, true, ?_⟩
        rw [firstTrue, show Item.answer (search items n) (.ref u) = some true from hu]
      | false =>
        have hpre' : ∀ i ∈ pre ++ [.ref u], ∃ q, i = .ref q ∧ Quiet items q := by
          intro i hi
          rcases List.mem_append.mp hi with hi | hi
          · exact hpre i hi
          · exact ⟨u, List.mem_singleton.mp hi, quiet_of_search hu⟩
        obtain ⟨m, b, hrest⟩ := ih (by rw [hitems, List.append_assoc, List.singleton_append]) hpre'
        refine ⟨max n m, b, ?_⟩
        have hu' : Item.answer (search items (max n m)) (.ref u) = some false := search_mono (Nat.le_max_left n m) hu
        rw [firstTrue, hu']
        refine firstTrue_mono ?_ hrest
        intro i b hi
        cases i with
        | hit => exact hi
        | ref x => exact search_mono (Nat.le_max_right n m) hi

/-- An answer to the items of a node answers every reference that the search comes to. -/
theorem answer_of_firstTrue {n : ℕ} {pre post : List (Item ν)} {u : ν} {b : Bool}
    (h : firstTrue (Item.answer (search items n)) (pre ++ .ref u :: post) = some b)
    (hpre : ∀ i ∈ pre, ∃ q, i = .ref q ∧ Quiet items q) : ∃ b', search items n u = some b' := by
  induction pre with
  | nil =>
    rw [List.nil_append, firstTrue] at h
    rcases hu : search items n u with _ | b'
    · rw [show Item.answer (search items n) (.ref u) = none from hu] at h
      cases h
    · exact ⟨b', rfl⟩
  | cons i pre ih =>
    obtain ⟨q, rfl, hq⟩ := hpre i List.mem_cons_self
    obtain ⟨m, hm⟩ := search_false_iff.mpr hq
    rw [List.cons_append, firstTrue] at h
    rcases hanswer : search items n q with _ | b'
    · rw [show Item.answer (search items n) (.ref q) = none from hanswer] at h
      cases h
    · obtain rfl := search_unique hanswer hm
      rw [show Item.answer (search items n) (.ref q) = some false from hanswer] at h
      exact ih h fun x hx => hpre x (List.mem_cons_of_mem _ hx)

/-- A search ends exactly when there is no endless chain of visits. -/
theorem search_terminates_iff_acc {v : ν} : (∃ n b, search items n v = some b) ↔ Acc (fun u v => Visits items v u) v := by
  constructor
  · rintro ⟨n, b, h⟩
    induction n generalizing v b with
    | zero => cases h
    | succ n ih =>
      refine ⟨v, ?_⟩
      rintro u ⟨pre, post, hitems, hpre⟩
      rw [search, hitems] at h
      obtain ⟨b', hu⟩ := answer_of_firstTrue h hpre
      exact ih b' hu
  · intro hacc
    induction hacc with
    | intro v _ ih =>
      obtain ⟨n, b, h⟩ := firstTrue_total ih (show items v = [] ++ items v from rfl) nofun
      exact ⟨n + 1, b, h⟩

/-- The search comes back exactly when it does not run into an infinite chain of references. -/
theorem search_terminates_iff {v : ν} :
    (∃ n b, search items n v = some b) ↔ ¬ ∃ chain : ℕ → ν, chain 0 = v ∧ ∀ n, Visits items (chain n) (chain (n + 1)) := by
  rw [search_terminates_iff_acc, ← not_iff_not, not_acc_iff_exists_descending_chain, not_not]

end Graph

end Search
