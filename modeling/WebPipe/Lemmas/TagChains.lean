import WebPipe.Lemmas.TagGroups

/-!
# Chains of operands

How the parser reads printed operands with an operator between them: to the end, when it reads every operand back, and otherwise not past
the first operand that it does not.
-/

namespace WebPipe
namespace Parser

open Nom

/-! ## Chains of operands -/

/-- Operands with an operator between them. -/
def chain (word : String) (operand : Parser TagExpr) (op : TagExpr → TagExpr → TagExpr) : Parser TagExpr := do
  let first ← operand
  let rest ← many0 (preceded (operator word) operand)
  pure (rest.foldl op first)

/-- The word of an operator between blanks. -/
def sepText (word : String) : List Char := ' ' :: (word.toList ++ [' '])

/-- One blank before other text. -/
theorem multispace0_blank {l : List Char} (h : NoBlank l) : multispace0 (' ' :: l) = .ok ([' '], l) := by
  have hsplit := takeWhile_append_of (p := isMultispace) (t := [' ']) (r := l) (by simp [isMultispace]) h
  exact congrArg Except.ok (Prod.ext hsplit.1 hsplit.2)

/-- An operator between blanks is read. -/
theorem operator_sepText {word : String} (hword : ∀ l, NoBlank (word.toList ++ l)) {l : List Char} (h : NoBlank l) :
    operator word (sepText word ++ l) = .ok (word, l) := by
  have htext : sepText word ++ l = ' ' :: (word.toList ++ ' ' :: l) := by simp [sepText]
  rw [htext, operator, delimited, bind_of_ok (multispace0_blank (hword _)), bind_of_ok (tag_append ..),
    bind_of_ok (multispace0_blank h)]
  rfl

/-- After blanks there is no word of an operator. -/
theorem operator_of_not {word : String} {l : List Char} (h : ¬word.toList <+: l.dropWhile isMultispace) :
    operator word l = .error .error := by
  have hblank : multispace0 l = .ok (l.takeWhile isMultispace, l.dropWhile isMultispace) := rfl
  rw [operator, delimited, bind_of_ok hblank, bind_of_error (tag_eq_error h)]

section Chain

variable {word : String} {operand : Parser TagExpr} {op : TagExpr → TagExpr → TagExpr} {text : TagExpr → List Char}

theorem suffix_operator (word : String) : Suffix (operator word) := suffix_multispace0.delimited (suffix_tag word) suffix_multispace0

/-- Printed operands before a text. -/
def operandsText (word : String) (text : TagExpr → List Char) (xs : List TagExpr) (r : List Char) : List Char :=
  joined (sepText word) (xs.map text) ++ r

theorem operandsText_cons (x y : TagExpr) (xs : List TagExpr) (r : List Char) :
    operandsText word text (x :: y :: xs) r = text x ++ (sepText word ++ operandsText word text (y :: xs) r) := by
  simp [operandsText, joined]

/-- Operands start with no blank. -/
theorem noBlank_operandsText (hblank : ∀ x l, NoBlank (text x ++ l)) (x : TagExpr) (xs : List TagExpr) (r : List Char) :
    NoBlank (operandsText word text (x :: xs) r) := by
  cases xs with
  | nil => exact hblank x r
  | cons y xs =>
    rw [operandsText_cons]
    exact hblank x _

/-- One operand after an operator. -/
theorem next_operand (hword : ∀ l, NoBlank (word.toList ++ l)) (hblank : ∀ x l, NoBlank (text x ++ l)) (x : TagExpr)
    (xs : List TagExpr) (r : List Char) :
    preceded (operator word) operand (sepText word ++ operandsText word text (x :: xs) r) =
      operand (operandsText word text (x :: xs) r) := by
  rw [preceded, bind_of_ok (operator_sepText hword (noBlank_operandsText hblank x xs r))]

/-- The operands after the first, when the next of them is read. -/
theorem more_operands (hword : ∀ l, NoBlank (word.toList ++ l)) (hblank : ∀ x l, NoBlank (text x ++ l)) (hsuffix : Suffix operand)
    {x y : TagExpr} {xs ys : List TagExpr} {r l l' : List Char} (hfirst : operand (operandsText word text (x :: xs) r) = .ok (y, l))
    (hrest : many0 (preceded (operator word) operand) l = .ok (ys, l')) :
    many0 (preceded (operator word) operand) (sepText word ++ operandsText word text (x :: xs) r) = .ok (y :: ys, l') := by
  have hle := (hsuffix _ _ _ hfirst).length_le
  rw [many0_of_ok ((suffix_operator word).preceded hsuffix) ((next_operand hword hblank x xs r).trans hfirst), bind_of_ok hrest]
  · rfl
  · rw [List.length_append, sepText, List.length_cons]
    omega

/-- Without an operator there are no more operands. -/
theorem no_more_operands {l : List Char} (h : operator word l = .error .error) :
    many0 (preceded (operator word) operand) l = .ok ([], l) := by
  refine many0_of_error ?_
  rw [preceded, bind_of_error h]

/-- A chain of operands that are all read back, before a text with a property that no operator starts. -/
theorem chain_of_readBack (hword : ∀ l, NoBlank (word.toList ++ l)) (hblank : ∀ x l, NoBlank (text x ++ l))
    (hsuffix : Suffix operand) {E : List Char → Prop} (hsep : ∀ l, E (sepText word ++ l)) {x : TagExpr} {xs : List TagExpr}
    (hread : ∀ y ∈ x :: xs, ∀ r, E r → ∃ y', operand (text y ++ r) = .ok (y', r) ∧ Regrouped y' y) {r : List Char} (hr : E r)
    (hstop : operator word r = .error .error) :
    ∃ y ys, chain word operand op (operandsText word text (x :: xs) r) = .ok (ys.foldl op y, r) ∧
      List.Forall₂ Regrouped (y :: ys) (x :: xs) := by
  have hlist : ∃ y ys l, operand (operandsText word text (x :: xs) r) = .ok (y, l) ∧
      many0 (preceded (operator word) operand) l = .ok (ys, r) ∧ List.Forall₂ Regrouped (y :: ys) (x :: xs) := by
    induction xs generalizing x with
    | nil =>
      obtain ⟨y, hy, hsame⟩ := hread x (by simp) r hr
      exact ⟨y, [], r, hy, no_more_operands hstop, .cons hsame .nil⟩
    | cons z xs ih =>
      obtain ⟨y, ys, l, hfirst, hrest, hsame⟩ := ih fun y hy => hread y (List.mem_cons_of_mem _ hy)
      obtain ⟨y₀, hy₀, hsame₀⟩ := hread x (by simp) (sepText word ++ operandsText word text (z :: xs) r) (hsep _)
      rw [operandsText_cons]
      exact ⟨y₀, y :: ys, _, hy₀, more_operands hword hblank hsuffix hfirst hrest, .cons hsame₀ hsame⟩
  obtain ⟨y, ys, l, hfirst, hrest, hsame⟩ := hlist
  refine ⟨y, ys, ?_, hsame⟩
  rw [chain, bind_of_ok hfirst]
  exact bind_of_ok hrest _

/-- A parser does not come to the end of a text: it fails, or stops before a text of a kind. -/
def Stuck (S : List Char → Prop) (x : Except Err (TagExpr × List Char)) : Prop :=
  x = .error .error ∨ ∃ y l, x = .ok (y, l) ∧ S l

/-- A chain with an operand that is not read back. -/
theorem chain_of_not_readBack (hword : ∀ l, NoBlank (word.toList ++ l)) (hblank : ∀ x l, NoBlank (text x ++ l))
    (hsuffix : Suffix operand) {E S : List Char → Prop} {Bad : TagExpr → Prop} (hsep : ∀ l, E (sepText word ++ l)) {x : TagExpr}
    {xs : List TagExpr} (hread : ∀ y ∈ x :: xs, ¬Bad y → ∀ r, E r → ∃ y', operand (text y ++ r) = .ok (y', r))
    (hstuck : ∀ y ∈ x :: xs, Bad y → ∀ r, Stuck S (operand (text y ++ r))) (hstop : ∀ l, S l → operator word l = .error .error)
    (hbad : ∃ y ∈ x :: xs, Bad y) (r : List Char) :
    Stuck (fun l => S l ∨ ∃ l', l = sepText word ++ l') (chain word operand op (operandsText word text (x :: xs) r)) := by
  have hlist : operand (operandsText word text (x :: xs) r) = .error .error ∨
      ∃ y ys l l', operand (operandsText word text (x :: xs) r) = .ok (y, l) ∧
        many0 (preceded (operator word) operand) l = .ok (ys, l') ∧ (S l' ∨ ∃ l'', l' = sepText word ++ l'') := by
    induction xs generalizing x with
    | nil =>
      obtain ⟨y, hy, hbad⟩ := hbad
      rw [List.mem_singleton] at hy
      subst hy
      rcases hstuck y (by simp) hbad r with herror | ⟨y', l, hok, hS⟩
      · exact Or.inl herror
      · exact Or.inr ⟨y', [], l, l, hok, no_more_operands (hstop l hS), Or.inl hS⟩
    | cons z xs ih =>
      rw [operandsText_cons]
      by_cases hx : Bad x
      · rcases hstuck x (by simp) hx (sepText word ++ operandsText word text (z :: xs) r) with herror | ⟨y', l, hok, hS⟩
        · exact Or.inl herror
        · exact Or.inr ⟨y', [], l, l, hok, no_more_operands (hstop l hS), Or.inl hS⟩
      · obtain ⟨y₀, hy₀⟩ := hread x (by simp) hx (sepText word ++ operandsText word text (z :: xs) r) (hsep _)
        have hlater : ∃ y ∈ z :: xs, Bad y := by
          obtain ⟨y, hy, hbad⟩ := hbad
          rcases List.mem_cons.mp hy with rfl | hy
          · exact absurd hbad hx
          · exact ⟨y, hy, hbad⟩
        refine Or.inr ?_
        rcases ih (fun y hy => hread y (List.mem_cons_of_mem _ hy)) (fun y hy => hstuck y (List.mem_cons_of_mem _ hy)) hlater with
          herror | ⟨y, ys, l, l', hfirst, hrest, hS⟩
        · -- the operator before it is left too
          exact ⟨y₀, [], _, _, hy₀, many0_of_error ((next_operand hword hblank z xs r).trans herror), Or.inr ⟨_, rfl⟩⟩
        · exact ⟨y₀, y :: ys, _, l', hy₀, more_operands hword hblank hsuffix hfirst hrest, hS⟩
  rcases hlist with herror | ⟨y, ys, l, l', hfirst, hrest, hS⟩
  · refine Or.inl ?_
    rw [chain, bind_of_error herror]
  · refine Or.inr ⟨ys.foldl op y, l', ?_, hS⟩
    rw [chain, bind_of_ok hfirst]
    exact bind_of_ok hrest _

end Chain

/-! ## What is left -/

theorem suffix_parseTag : Suffix parseTag :=
  (eats_char _).suffix.bind fun _ => (eats_char _).suffix.opt.bind fun _ => eats_parseIdentifier.suffix.bind fun _ =>
    ((eats_char _).suffix.delimited (eats_argSeparator.suffix.separatedList1 suffix_nextArg) (eats_char _).suffix).opt.bind fun _ =>
      suffix_pure _

theorem suffix_parseTagPrimary {tagExpr : Parser TagExpr} (h : Suffix tagExpr) : Suffix (parseTagPrimary tagExpr) :=
  (((eats_char _).suffix.bind fun _ => suffix_multispace0).delimited h
    (suffix_multispace0.bind fun _ => (eats_char _).suffix)).alt (suffix_parseTag.bind fun _ => suffix_pure _)

theorem suffix_parseAndExpr {tagExpr : Parser TagExpr} (h : Suffix tagExpr) : Suffix (parseAndExpr tagExpr) :=
  (suffix_parseTagPrimary h).bind fun _ => ((suffix_operator _).preceded (suffix_parseTagPrimary h)).many0.bind fun _ => suffix_pure _

/-- An expression leaves an end of the text: induction on the fuel. -/
theorem suffix_parseTagExprIn (n : Nat) : Suffix (parseTagExprIn n) := by
  induction n with
  | zero => exact suffix_fail
  | succ n ih =>
    exact (suffix_parseAndExpr ih).bind fun _ => ((suffix_operator _).preceded (suffix_parseAndExpr ih)).many0.bind fun _ => suffix_pure _

end Parser
end WebPipe
