import Mathlib.Data.List.Basic

/-!
# Brackets

A history of things that start and finish, each inside the one that started last. The depth of a start says how many things are then under
way. So depths alone tell when what started has finished: `over_spec` finds the first start after the end of a thing, and `out_spec` the
first start after the end of the thing around it.
-/

namespace Brackets

variable {α : Type*}

/-- Something starts, or what started last finishes. -/
inductive Mark (α : Type*) where
  | start (a : α)
  | finish

/-- Everything that starts finishes, and nothing else does. -/
inductive Balanced : List (Mark α) → Prop
  | nil : Balanced []
  | around {a : α} {inner rest : List (Mark α)} (hinner : Balanced inner) (hrest : Balanced rest) :
      Balanced (.start a :: inner ++ .finish :: rest)

/-- What starts, with its depth, in order. -/
def openings : Nat → List (Mark α) → List (α × Nat)
  | _, [] => []
  | d, .start a :: l => (a, d + 1) :: openings (d + 1) l
  | d, .finish :: l => openings (d - 1) l

/-- The depth in the end. -/
def depthAfter : Nat → List (Mark α) → Nat
  | d, [] => d
  | d, .start _ :: l => depthAfter (d + 1) l
  | d, .finish :: l => depthAfter (d - 1) l

/-- Openings of two words. -/
theorem openings_append (d : Nat) (l l' : List (Mark α)) : openings d (l ++ l') = openings d l ++ openings (depthAfter d l) l' := by
  induction l generalizing d with
  | nil => rfl
  | cons m l ih => cases m <;> simp [openings, depthAfter, ih]

/-- The depth after two words. -/
theorem depthAfter_append (d : Nat) (l l' : List (Mark α)) : depthAfter d (l ++ l') = depthAfter (depthAfter d l) l' := by
  induction l generalizing d with
  | nil => rfl
  | cons m l ih => cases m <;> simp [depthAfter, ih]

theorem length_openings (d d' : Nat) (l : List (Mark α)) : (openings d l).length = (openings d' l).length := by
  induction l generalizing d d' with
  | nil => rfl
  | cons m l ih =>
    cases m with
    | start a => simp [openings, ih (d + 1) (d' + 1)]
    | finish => exact ih (d - 1) (d' - 1)

/-- A history, split at one of its starts. -/
theorem openings_split {d n : Nat} {l : List (Mark α)} (h : n < (openings d l).length) :
    ∃ pre a rest, l = pre ++ .start a :: rest ∧ (openings d pre).length = n := by
  induction l generalizing d n with
  | nil => cases h
  | cons m l ih =>
    cases m with
    | start a =>
      cases n with
      | zero => exact ⟨[], a, l, rfl, rfl⟩
      | succ n =>
        obtain ⟨pre, b, rest, rfl, hlength⟩ := ih (Nat.lt_of_succ_lt_succ h)
        exact ⟨.start a :: pre, b, rest, rfl, congrArg Nat.succ hlength⟩
    | finish =>
      obtain ⟨pre, b, rest, rfl, hlength⟩ := ih h
      exact ⟨.finish :: pre, b, rest, rfl, hlength⟩

/-! ## Balanced histories -/

namespace Balanced

variable {l l' inner rest : List (Mark α)}

theorem append (h : Balanced l) (h' : Balanced l') : Balanced (l ++ l') := by
  induction h with
  | nil => exact h'
  | @around a inner rest hinner _ _ ih =>
    have hassoc : .start a :: inner ++ .finish :: rest ++ l' = .start a :: inner ++ .finish :: (rest ++ l') := by simp
    rw [hassoc]
    exact .around hinner ih

/-- A balanced word leaves the depth. -/
theorem depthAfter_eq (h : Balanced l) (d : Nat) : depthAfter d l = d := by
  induction h generalizing d with
  | nil => rfl
  | around _ _ ih ihrest => rw [List.cons_append, depthAfter, depthAfter_append, ih, depthAfter, Nat.add_sub_cancel, ihrest]

theorem openings_append (h : Balanced l) (d : Nat) (l' : List (Mark α)) : openings d (l ++ l') = openings d l ++ openings d l' := by
  rw [Brackets.openings_append, h.depthAfter_eq]

/-- Everything starts deeper than where the history begins. -/
theorem lt_of_mem (h : Balanced l) {d : Nat} {x : α × Nat} (hx : x ∈ openings d l) : d < x.2 := by
  induction h generalizing d with
  | nil => cases hx
  | @around a inner rest hinner _ ih ihrest =>
    rw [List.cons_append, openings, hinner.openings_append, openings, Nat.add_sub_cancel, List.mem_cons, List.mem_append] at hx
    rcases hx with rfl | hx | hx
    · exact Nat.lt_succ_self d
    · have := ih hx
      omega
    · exact ihrest hx

end Balanced

/-- What finishes in a history without having started in it, counted. -/
inductive Closing : Nat → List (Mark α) → Prop
  | none {l : List (Mark α)} (h : Balanced l) : Closing 0 l
  | next {k : Nat} {inner rest : List (Mark α)} (hinner : Balanced inner) (hrest : Closing k rest) :
      Closing (k + 1) (inner ++ .finish :: rest)

/-- One more finish closes one more level. -/
theorem Closing.finish {k : Nat} {l rest : List (Mark α)} (h : Closing k l) (hrest : Balanced rest) :
    Closing (k + 1) (l ++ .finish :: rest) := by
  induction h with
  | none h => exact .next h (.none hrest)
  | next hinner _ ih =>
    rw [List.append_assoc, List.cons_append]
    exact .next hinner ih

/-- The end of a balanced history finishes what its beginning leaves under way. -/
theorem Balanced.closing {l pre suf : List (Mark α)} (h : Balanced l) (he : l = pre ++ suf) (d : Nat) :
    ∃ k, Closing k suf ∧ depthAfter d pre = d + k := by
  induction h generalizing pre suf d with
  | nil =>
    obtain ⟨rfl, rfl⟩ := List.append_eq_nil_iff.mp he.symm
    exact ⟨0, .none .nil, rfl⟩
  | @around a inner rest hinner hrest ih ihrest =>
    cases pre with
    | nil =>
      rw [List.nil_append] at he
      exact ⟨0, .none (he ▸ .around hinner hrest), rfl⟩
    | cons m pre =>
      simp only [List.cons_append, List.cons.injEq] at he
      obtain ⟨rfl, he⟩ := he
      rcases List.append_eq_append_iff.mp he with ⟨c, rfl, hc⟩ | ⟨c, rfl, rfl⟩
      · cases c with
        | nil =>
          rw [List.nil_append] at hc
          refine ⟨1, hc ▸ .next .nil (.none hrest), ?_⟩
          rw [depthAfter, List.append_nil, hinner.depthAfter_eq]
        | cons m c =>
          simp only [List.cons_append, List.cons.injEq] at hc
          obtain ⟨rfl, rfl⟩ := hc
          obtain ⟨k, hk, hdepth⟩ := ihrest rfl d
          refine ⟨k, hk, ?_⟩
          rw [depthAfter, depthAfter_append, hinner.depthAfter_eq, depthAfter, Nat.add_sub_cancel, hdepth]
      · obtain ⟨k, hk, hdepth⟩ := ih rfl (d + 1)
        refine ⟨k + 1, hk.finish hrest, ?_⟩
        rw [depthAfter, hdepth]
        omega

/-- The first start in a history that finishes what is under way is at most one deeper than where it begins. -/
theorem Closing.head_le {k d : Nat} {l : List (Mark α)} (h : Closing k l) {x : α × Nat} (hx : x ∈ (openings (d + k) l).head?) :
    x.2 ≤ d + k + 1 := by
  induction h generalizing d with
  | none h =>
    cases h with
    | nil => cases hx
    | around _ _ =>
      rw [List.cons_append, openings, List.head?_cons, Option.mem_some_iff] at hx
      exact hx ▸ Nat.le_refl _
  | @next k inner rest hinner _ ih =>
    rw [hinner.openings_append] at hx
    cases hinner with
    | nil =>
      rw [openings, List.nil_append, openings] at hx
      have := @ih d (by simpa using hx)
      omega
    | around _ _ =>
      rw [List.cons_append, openings, List.cons_append, List.head?_cons, Option.mem_some_iff] at hx
      exact hx ▸ Nat.le_refl _

/-! ## What depths tell -/

/-- What starts up to the end of a thing is deeper, and what starts first after its end is not. -/
theorem over_spec {pre rest : List (Mark α)} {a : α} (h : Balanced (pre ++ .start a :: rest)) (d : Nat) :
    ∃ inner after, rest = inner ++ .finish :: after ∧ Balanced inner ∧
      openings (depthAfter d pre + 1) rest = openings (depthAfter d pre + 1) inner ++ openings (depthAfter d pre) after ∧
      (∀ x ∈ openings (depthAfter d pre + 1) inner, depthAfter d pre + 1 < x.2) ∧
      ∀ x ∈ (openings (depthAfter d pre) after).head?, x.2 ≤ depthAfter d pre + 1 := by
  obtain ⟨k, hk, hdepth⟩ := h.closing (List.append_cons pre (.start a) rest) d
  obtain ⟨_, -, hbefore⟩ := h.closing rfl d
  rw [depthAfter_append, depthAfter, depthAfter] at hdepth
  cases hk with
  | none => omega
  | @next k inner after hinner hafter =>
    have hd : depthAfter d pre = d + k := by omega
    refine ⟨inner, after, rfl, hinner, ?_, fun x hx => hinner.lt_of_mem hx, fun x hx => ?_⟩
    · rw [hinner.openings_append, openings, Nat.add_sub_cancel]
    · rw [hd] at hx ⊢
      exact hafter.head_le hx

/-- What starts up to the end of the thing around a thing is as deep, and what starts first after it is not; without a thing around it
everything that starts later is as deep. -/
theorem out_spec {pre rest : List (Mark α)} {a : α} (h : Balanced (pre ++ .start a :: rest)) (d : Nat) :
    (∃ inner mid after, rest = inner ++ .finish :: (mid ++ .finish :: after) ∧ Balanced inner ∧ Balanced mid ∧
      openings (depthAfter d pre + 1) rest =
        openings (depthAfter d pre + 1) inner ++ openings (depthAfter d pre) mid ++ openings (depthAfter d pre - 1) after ∧
      (∀ x ∈ openings (depthAfter d pre + 1) inner ++ openings (depthAfter d pre) mid, depthAfter d pre + 1 ≤ x.2) ∧
      ∀ x ∈ (openings (depthAfter d pre - 1) after).head?, x.2 < depthAfter d pre + 1) ∨
    ∃ inner after, rest = inner ++ .finish :: after ∧ Balanced inner ∧ Balanced after ∧
      ∀ x ∈ openings (depthAfter d pre + 1) rest, depthAfter d pre + 1 ≤ x.2 := by
  obtain ⟨k, hk, hdepth⟩ := h.closing (List.append_cons pre (.start a) rest) d
  obtain ⟨_, -, hbefore⟩ := h.closing rfl d
  rw [depthAfter_append, depthAfter, depthAfter] at hdepth
  cases hk with
  | none => omega
  | @next k inner after hinner hafter =>
    have hd : depthAfter d pre = d + k := by omega
    cases hafter with
    | none hbalanced =>
      refine Or.inr ⟨inner, after, rfl, hinner, hbalanced, fun x hx => ?_⟩
      rw [hinner.openings_append, openings, Nat.add_sub_cancel, List.mem_append] at hx
      rcases hx with hx | hx
      · have := hinner.lt_of_mem hx
        omega
      · exact hbalanced.lt_of_mem hx
    | @next k mid after hmid hafter =>
      refine Or.inl ⟨inner, mid, after, rfl, hinner, hmid, ?_, fun x hx => ?_, fun x hx => ?_⟩
      · rw [hinner.openings_append, openings, Nat.add_sub_cancel, hmid.openings_append, openings, List.append_assoc]
      · rcases List.mem_append.mp hx with hx | hx
        · have := hinner.lt_of_mem hx
          omega
        · exact hmid.lt_of_mem hx
      · have hpred : depthAfter d pre - 1 = d + k := by omega
        rw [hpred] at hx
        have := hafter.head_le hx
        omega

end Brackets
