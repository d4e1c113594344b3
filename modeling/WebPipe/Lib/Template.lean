import Mathlib.Data.List.Basic

/-!
# Templates

A template is a text with placeholders between an opening and a closing character. `Splits` says what its pieces are: a placeholder goes
from an opening character to the first closing character after it, and an opening character that is never closed is literal.
-/

namespace Template

/-- A piece of a template. -/
inductive Piece where
  | literal (text : List Char)
  | placeholder (name : List Char)
deriving DecidableEq, Repr

/-- The value of a piece: a literal stands for itself. -/
def Piece.render (value : List Char → List Char) : Piece → List Char
  | literal text => text
  | placeholder name => value name

/-- The pieces of a template with their values. -/
def render (value : List Char → List Char) (ps : List Piece) : List Char := ps.flatMap (Piece.render value)

/-- The values of the placeholders determine the text. -/
theorem render_congr {value value' : List Char → List Char} {ps : List Piece}
    (h : ∀ name, .placeholder name ∈ ps → value name = value' name) : render value ps = render value' ps := by
  unfold render
  refine List.flatMap_congr fun p hp => ?_
  cases p with
  | literal text => rfl
  | placeholder name => exact h name hp

variable (o c : Char)

/-- No opening character of a text is closed. -/
def Unclosed (l : List Char) : Prop := ∀ lit post, l = lit ++ o :: post → c ∉ post

/-- A text splits into pieces: literal text without an opening character before each placeholder, and unclosed text at the end. -/
inductive Splits : List Char → List Piece → Prop
  | done {l : List Char} (h : Unclosed o c l) : Splits l [.literal l]
  | step {lit name rest : List Char} {ps : List Piece} (hlit : o ∉ lit) (hname : c ∉ name) (h : Splits rest ps) :
      Splits (lit ++ o :: (name ++ c :: rest)) (.literal lit :: .placeholder name :: ps)

variable {o c}

/-- What stands before the first occurrence of a character, and after it, is determined. -/
theorem eq_of_first {a : Char} {l l' r r' : List Char} (hl : a ∉ l) (hl' : a ∉ l') (h : l ++ a :: r = l' ++ a :: r') :
    l = l' ∧ r = r' := by
  induction l generalizing l' with
  | nil =>
    cases l' with
    | nil => exact ⟨rfl, (List.cons.inj h).2⟩
    | cons b l' =>
      obtain ⟨rfl, -⟩ := List.cons.inj h
      exact absurd (List.mem_cons_self ..) hl'
  | cons b l ih =>
    cases l' with
    | nil =>
      obtain ⟨rfl, -⟩ := List.cons.inj h
      exact absurd (List.mem_cons_self ..) hl
    | cons b' l' =>
      obtain ⟨rfl, htail⟩ := List.cons.inj h
      obtain ⟨rfl, rfl⟩ := ih (fun hm => hl (List.mem_cons_of_mem _ hm)) (fun hm => hl' (List.mem_cons_of_mem _ hm)) htail
      exact ⟨rfl, rfl⟩

/-- When the first opening character is not closed, none is. -/
theorem unclosed_of_first {lit post : List Char} (hlit : o ∉ lit) (hpost : c ∉ post) : Unclosed o c (lit ++ o :: post) := by
  induction lit with
  | nil =>
    intro lit' post' h
    cases lit' with
    | nil => exact (List.cons.inj h).2 ▸ hpost
    | cons b lit' =>
      obtain ⟨-, rfl⟩ := List.cons.inj h
      intro hc
      exact hpost (by simp [hc])
  | cons b lit ih =>
    intro lit' post' h
    cases lit' with
    | nil =>
      obtain ⟨rfl, -⟩ := List.cons.inj h
      exact absurd (List.mem_cons_self ..) hlit
    | cons b' lit' => exact ih (fun hm => hlit (List.mem_cons_of_mem _ hm)) lit' post' (List.cons.inj h).2

/-- Every text splits. -/
theorem exists_splits (o c : Char) (l : List Char) : ∃ ps, Splits o c l ps := by
  induction hn : l.length using Nat.strongRecOn generalizing l with
  | ind n ih =>
    by_cases ho : o ∈ l
    · obtain ⟨lit, post, rfl, hlit⟩ := List.eq_append_cons_of_mem ho
      by_cases hc : c ∈ post
      · obtain ⟨name, rest, rfl, hname⟩ := List.eq_append_cons_of_mem hc
        obtain ⟨ps, h⟩ := ih rest.length (by simp at hn; omega) rest rfl
        exact ⟨_, .step hlit hname h⟩
      · exact ⟨_, .done (unclosed_of_first hlit hc)⟩
    · exact ⟨_, .done fun lit post h => absurd (by simp [h]) ho⟩

/-- A text splits in one way. -/
theorem Splits.unique {l : List Char} {ps ps' : List Piece} (h : Splits o c l ps) (h' : Splits o c l ps') : ps = ps' := by
  induction h generalizing ps' with
  | done h =>
    cases h' with
    | done _ => rfl
    | step hlit hname h' => exact absurd (by simp) (h _ _ rfl)
  | step hlit hname h ih =>
    generalize hl : _ ++ o :: (_ ++ c :: _) = l at h'
    cases h' with
    | done h' => exact absurd (by simp) (h' _ _ hl.symm)
    | step hlit' hname' h' =>
      obtain ⟨rfl, hrest⟩ := eq_of_first hlit hlit' hl
      obtain ⟨rfl, rfl⟩ := eq_of_first hname hname' hrest
      rw [ih h']

end Template
