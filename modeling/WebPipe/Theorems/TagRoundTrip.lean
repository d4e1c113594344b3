import WebPipe.Lemmas.TagChains

/-!
# Printed tag expressions are read back

The parser reads a printed expression as the same expression up to the grouping of equal operators, when it reads every argument back.
Where it does not, the text is not taken to its end.
-/

namespace WebPipe
namespace Parser

open Nom

/-- Text that may follow an operand of a disjunction. -/
def EndsConjunction (r : List Char) : Prop := FollowsTag r ∧ operator "and" r = .error .error

/-- Text that may follow an expression. -/
def EndsExpr (r : List Char) : Prop := EndsConjunction r ∧ operator "or" r = .error .error

/-- Text at which a tag is left when its arguments are not read. -/
def AtArguments (l : List Char) : Prop := ∃ l', l = '(' :: l'

/-- Text at which a conjunction is left. -/
def AtConjunct (l : List Char) : Prop := AtArguments l ∨ ∃ l', l = sepText "and" ++ l'

/-- Text at which an expression is left. -/
def AtDisjunct (l : List Char) : Prop := AtConjunct l ∨ ∃ l', l = sepText "or" ++ l'

/-- The word of an operator does not start in a text. -/
theorem operator_of_head {word : String} {c : Char} {t : List Char} (hword : word.toList = c :: t) {l : List Char}
    (h : (l.dropWhile isMultispace).head? ≠ some c) : operator word l = .error .error := by
  refine operator_of_not ?_
  rintro ⟨s, hs⟩
  rw [← hs, hword] at h
  exact h rfl

/-- An expression ends with the text. -/
theorem endsExpr_nil : EndsExpr [] :=
  ⟨⟨followsTag_nil, operator_of_head rfl (by simp)⟩, operator_of_head rfl (by simp)⟩

/-- An expression ends at a closing bracket. -/
theorem endsExpr_paren (r : List Char) : EndsExpr (')' :: r) := by
  have hdrop : ((')' :: r).dropWhile isMultispace).head? = some ')' := by
    rw [List.dropWhile_cons_of_neg (by decide)]
    rfl
  exact ⟨⟨followsTag_cons (Or.inr rfl) r, operator_of_head rfl (by rw [hdrop]; decide)⟩,
    operator_of_head rfl (by rw [hdrop]; decide)⟩

/-- The first character after the blank of an operator. -/
theorem head_sepText {word : String} {c : Char} {t : List Char} (hword : word.toList = c :: t) (hc : isMultispace c = false)
    (l : List Char) : ((sepText word ++ l).dropWhile isMultispace).head? = some c := by
  rw [sepText, hword, List.cons_append, List.dropWhile_cons_of_pos (by decide), List.cons_append, List.cons_append,
    List.dropWhile_cons_of_neg (by simp [hc])]
  rfl

theorem noBlank_and (l : List Char) : NoBlank ("and".toList ++ l) := noBlank_cons (c := 'a') (by decide) _

theorem noBlank_or (l : List Char) : NoBlank ("or".toList ++ l) := noBlank_cons (c := 'o') (by decide) _

theorem followsTag_sepText (word : String) (l : List Char) : FollowsTag (sepText word ++ l) := followsTag_cons (Or.inl rfl) _

/-- A conjunction ends at an `or`. -/
theorem endsConjunction_sepText (l : List Char) : EndsConjunction (sepText "or" ++ l) :=
  ⟨followsTag_sepText "or" l, operator_of_head rfl (by rw [head_sepText rfl (by decide)]; decide)⟩

/-- At the arguments of a tag stands a bracket. -/
theorem head_atArguments {l : List Char} (h : AtArguments l) : (l.dropWhile isMultispace).head? = some '(' := by
  obtain ⟨l', rfl⟩ := h
  rw [List.dropWhile_cons_of_neg (by decide)]
  rfl

/-- Arguments are no `and`. -/
theorem no_and_atArguments {l : List Char} (h : AtArguments l) : operator "and" l = .error .error :=
  operator_of_head rfl (by rw [head_atArguments h]; decide)

/-- Where a conjunction goes on there is no `or`. -/
theorem no_or_atConjunct {l : List Char} (h : AtConjunct l) : operator "or" l = .error .error := by
  rcases h with h | ⟨l', rfl⟩
  · exact operator_of_head rfl (by rw [head_atArguments h]; decide)
  · exact operator_of_head rfl (by rw [head_sepText rfl (by decide)]; decide)

/-- An expression that is left before its end is not at a closing parenthesis. -/
theorem no_paren_atDisjunct {l : List Char} (h : AtDisjunct l) : (do let _ ← multispace0; char ')' : Parser Unit) l = .error .error := by
  have hhead : (l.dropWhile isMultispace).head? ≠ some ')' := by
    rcases h with (h | ⟨l', rfl⟩) | ⟨l', rfl⟩
    · rw [head_atArguments h]
      decide
    · rw [head_sepText rfl (by decide)]
      decide
    · rw [head_sepText rfl (by decide)]
      decide
  have hblank : multispace0 l = .ok (l.takeWhile isMultispace, l.dropWhile isMultispace) := rfl
  rw [bind_of_ok hblank]
  cases hdrop : l.dropWhile isMultispace with
  | nil => rfl
  | cons c l' =>
    refine char_of_ne ?_ l'
    rintro rfl
    rw [hdrop] at hhead
    exact hhead rfl

/-- The parser of expressions in parentheses. -/
def parenthesised (tagExpr : Parser TagExpr) : Parser TagExpr :=
  delimited (do char '('; multispace0) tagExpr (do let _ ← multispace0; char ')')

theorem parseTagPrimary_eq (tagExpr : Parser TagExpr) :
    parseTagPrimary tagExpr = alt (parenthesised tagExpr) (do let t ← parseTag; pure (TagExpr.tag t)) := rfl

/-- What starts with another character is not in brackets. -/
theorem parenthesised_of_ne {tagExpr : Parser TagExpr} {c : Char} (h : c ≠ '(') (l : List Char) :
    parenthesised tagExpr (c :: l) = .error .error := by
  rw [parenthesised, delimited, bind_of_error]
  rw [bind_of_error (char_of_ne h l)]

/-- After the bracket comes an expression and the bracket that closes it. -/
theorem parenthesised_open {tagExpr : Parser TagExpr} {l : List Char} (h : NoBlank l) :
    parenthesised tagExpr ('(' :: l) = (do let e ← tagExpr; let _ ← (do let _ ← multispace0; char ')'); pure e : Parser TagExpr) l := by
  have hopen : (do char '('; multispace0 : Parser (List Char)) ('(' :: l) = .ok ([], l) := by
    rw [bind_of_ok (char_self ..), multispace0_of_noBlank h]
  rw [parenthesised, delimited, bind_of_ok hopen]

section Levels

variable {u : AlphanumericTable} {tagExpr : Parser TagExpr}

/-- An operand starts with no blank. -/
theorem noBlank_operandText (e : TagExpr) (l : List Char) : NoBlank (operandText u e ++ l) := by
  induction e generalizing l with
  | tag t => exact noBlank_cons (by decide) _
  | or left right => exact noBlank_cons (by decide) _
  | and left right ihl ihr =>
    have htext : operandText u (.and left right) = operandText u left ++ (" and ".toList ++ operandText u right) := rfl
    rw [htext, List.append_assoc]
    exact ihl _

/-- An expression starts with no blank. -/
theorem noBlank_displayTagExpr (e : TagExpr) (l : List Char) : NoBlank (displayTagExpr u e ++ l) := by
  induction e generalizing l with
  | tag t => exact noBlank_operandText (.tag t) l
  | and left right => exact noBlank_operandText (.and left right) l
  | or left right ihl ihr =>
    rw [displayTagExpr, List.append_assoc]
    exact ihl _

/-- The tags of an expression are tags of the parser, and their arguments are read back. -/
def ReadBackExpr (u : AlphanumericTable) (e : TagExpr) : Prop := ∀ t ∈ e.tags, ∀ a ∈ t.args, ReadBack u a

/-- The tags of an expression are tags of the parser. -/
def FromParserExpr (e : TagExpr) : Prop := ∀ t ∈ e.tags, FromParser t

/-- A parser reads a printed expression back. -/
def Reads (p : Parser TagExpr) (text : List Char) (E : List Char → Prop) (e : TagExpr) : Prop :=
  ∀ r, E r → ∃ e', p (text ++ r) = .ok (e', r) ∧ Regrouped e' e

/-- A parser reads an expression in parentheses back, or the tag that an operand is. -/
theorem primary_reads {q : TagExpr} (hfrom : FromParserExpr q) (hread : ReadBackExpr u q) (hand : ∀ l r, q ≠ .and l r)
    (hinner : q.isOr = true → Reads tagExpr (displayTagExpr u q) EndsExpr q) :
    Reads (parseTagPrimary tagExpr) (operandText u q) FollowsTag q := by
  intro r hr
  cases q with
  | and l r => exact absurd rfl (hand l r)
  | tag t =>
    have htag := parseTag_of_readBack (hfrom t (by simp [TagExpr.tags])) (hread t (by simp [TagExpr.tags])) hr
    have hparen : parenthesised tagExpr (operandText u (.tag t) ++ r) = .error .error :=
      parenthesised_of_ne (c := '@') (by decide) _
    refine ⟨.tag t, ?_, Regrouped.refl _⟩
    rw [parseTagPrimary_eq, alt_of_error hparen]
    exact bind_of_ok htag _
  | or left right =>
    obtain ⟨e', hok, hsame⟩ := hinner rfl (')' :: r) (endsExpr_paren r)
    have htext : operandText u (.or left right) ++ r = '(' :: (displayTagExpr u (.or left right) ++ ')' :: r) := by
      simp [operandText, displayOperand, TagExpr.isOr]
    have hclose : (do let _ ← multispace0; char ')' : Parser Unit) (')' :: r) = .ok ((), r) := by
      rw [bind_of_ok (multispace0_of_noBlank (noBlank_cons (by decide) r)), char_self]
    refine ⟨e', ?_, hsame⟩
    rw [htext, parseTagPrimary_eq]
    refine alt_of_ok ?_
    rw [parenthesised_open (noBlank_displayTagExpr _ _), bind_of_ok hok, bind_of_ok hclose]
    rfl

/-- An operand that is not read back is left at the arguments of its tag, or there is an error. -/
theorem primary_stuck {q : TagExpr} (hfrom : FromParserExpr q) (hbad : ¬ReadBackExpr u q) (hand : ∀ l r, q ≠ .and l r)
    (hinner : q.isOr = true → ∀ r, Stuck AtDisjunct (tagExpr (displayTagExpr u q ++ r))) (r : List Char) :
    Stuck AtArguments (parseTagPrimary tagExpr (operandText u q ++ r)) := by
  cases q with
  | and l r => exact absurd rfl (hand l r)
  | tag t =>
    have hargs : ∃ a ∈ t.args, ¬ReadBack u a := by
      simpa [ReadBackExpr, TagExpr.tags] using hbad
    obtain ⟨t', l, htag⟩ := parseTag_of_not_readBack (hfrom t (by simp [TagExpr.tags])) hargs r
    have hparen : parenthesised tagExpr (operandText u (.tag t) ++ r) = .error .error :=
      parenthesised_of_ne (c := '@') (by decide) _
    refine Or.inr ⟨.tag t', _, ?_, l, rfl⟩
    rw [parseTagPrimary_eq, alt_of_error hparen]
    exact bind_of_ok htag _
  | or left right =>
    have htext : operandText u (.or left right) ++ r = '(' :: (displayTagExpr u (.or left right) ++ ')' :: r) := by
      simp [operandText, displayOperand, TagExpr.isOr]
    have hparen : parenthesised tagExpr ('(' :: (displayTagExpr u (.or left right) ++ ')' :: r)) = .error .error := by
      rw [parenthesised_open (noBlank_displayTagExpr _ _)]
      rcases hinner rfl (')' :: r) with herror | ⟨y, l, hok, hl⟩
      · rw [bind_of_error herror]
      · rw [bind_of_ok hok, bind_of_error (no_paren_atDisjunct hl)]
    refine Or.inl ?_
    rw [htext, parseTagPrimary_eq, alt_of_error hparen, bind_of_error]
    rw [parseTag, bind_of_error (char_of_ne (by decide) _)]

/-- An operand of a conjunction, as the parser reads it. -/
theorem conjunction_reads {c : TagExpr} (hsuffix : Suffix (parseTagPrimary tagExpr))
    (hq : ∀ q ∈ conjuncts c, Reads (parseTagPrimary tagExpr) (operandText u q) FollowsTag q) :
    Reads (parseAndExpr tagExpr) (operandText u c) EndsConjunction c := by
  intro r hr
  obtain ⟨x, xs, hx⟩ := List.exists_cons_of_ne_nil (conjuncts_ne_nil c)
  rw [hx] at hq
  obtain ⟨y, ys, hok, hsame⟩ := chain_of_readBack noBlank_and noBlank_operandText hsuffix
    (followsTag_sepText "and") hq hr.1 hr.2
  rw [← hx] at hsame
  refine ⟨_, ?_, regrouped_and hsame⟩
  rw [operandText_conjuncts, hx]
  exact hok

/-- An expression, as the parser reads it. -/
theorem disjunction_reads {e : TagExpr} (hsuffix : Suffix (parseAndExpr tagExpr))
    (hc : ∀ c ∈ disjuncts e, Reads (parseAndExpr tagExpr) (operandText u c) EndsConjunction c) :
    Reads (parseOrExpr tagExpr) (displayTagExpr u e) EndsExpr e := by
  intro r hr
  obtain ⟨x, xs, hx⟩ := List.exists_cons_of_ne_nil (disjuncts_ne_nil e)
  rw [hx] at hc
  obtain ⟨y, ys, hok, hsame⟩ := chain_of_readBack noBlank_or noBlank_operandText hsuffix
    endsConjunction_sepText hc hr.1 hr.2
  rw [← hx] at hsame
  refine ⟨_, ?_, regrouped_or hsame⟩
  rw [displayTagExpr_disjuncts, hx]
  exact hok

/-- A conjunction with an operand that is not read back. -/
theorem conjunction_stuck {c : TagExpr} (hsuffix : Suffix (parseTagPrimary tagExpr))
    (hread : ∀ q ∈ conjuncts c, ReadBackExpr u q → Reads (parseTagPrimary tagExpr) (operandText u q) FollowsTag q)
    (hstuck : ∀ q ∈ conjuncts c, ¬ReadBackExpr u q → ∀ r, Stuck AtArguments (parseTagPrimary tagExpr (operandText u q ++ r)))
    (hbad : ¬ReadBackExpr u c) (r : List Char) : Stuck AtConjunct (parseAndExpr tagExpr (operandText u c ++ r)) := by
  have hone : ∃ q ∈ conjuncts c, ¬ReadBackExpr u q := by
    by_contra hall
    push Not at hall
    refine hbad fun t ht => ?_
    obtain ⟨q, hq, ht⟩ := mem_tags_conjuncts.mp ht
    exact hall q hq t ht
  obtain ⟨x, xs, hx⟩ := List.exists_cons_of_ne_nil (conjuncts_ne_nil c)
  rw [hx] at hread hstuck hone
  rw [operandText_conjuncts, hx]
  refine chain_of_not_readBack noBlank_and
    noBlank_operandText hsuffix (followsTag_sepText "and") (fun q hq hgood r hr => ?_) hstuck (fun _ => no_and_atArguments) hone r
  obtain ⟨q', hok, -⟩ := hread q hq (not_not.mp hgood) r hr
  exact ⟨q', hok⟩

/-- A disjunction with an operand that is not read back. -/
theorem disjunction_stuck {e : TagExpr} (hsuffix : Suffix (parseAndExpr tagExpr))
    (hread : ∀ c ∈ disjuncts e, ReadBackExpr u c → Reads (parseAndExpr tagExpr) (operandText u c) EndsConjunction c)
    (hstuck : ∀ c ∈ disjuncts e, ¬ReadBackExpr u c → ∀ r, Stuck AtConjunct (parseAndExpr tagExpr (operandText u c ++ r)))
    (hbad : ¬ReadBackExpr u e) (r : List Char) : Stuck AtDisjunct (parseOrExpr tagExpr (displayTagExpr u e ++ r)) := by
  have hone : ∃ c ∈ disjuncts e, ¬ReadBackExpr u c := by
    by_contra hall
    push Not at hall
    refine hbad fun t ht => ?_
    obtain ⟨c, hc, ht⟩ := mem_tags_disjuncts.mp ht
    exact hall c hc t ht
  obtain ⟨x, xs, hx⟩ := List.exists_cons_of_ne_nil (disjuncts_ne_nil e)
  rw [hx] at hread hstuck hone
  rw [displayTagExpr_disjuncts, hx]
  refine chain_of_not_readBack noBlank_or
    noBlank_operandText hsuffix endsConjunction_sepText (fun c hc hgood r hr => ?_) hstuck (fun _ => no_or_atConjunct) hone r
  obtain ⟨c', hok, -⟩ := hread c hc (not_not.mp hgood) r hr
  exact ⟨c', hok⟩

end Levels

/-! ## Whole expressions -/

section Whole

variable {u : AlphanumericTable}

/-- The text of a disjunction in parentheses is shorter than the expression that it is an operand of. -/
theorem length_inner {e c q : TagExpr} (hc : c ∈ disjuncts e) (hq : q ∈ conjuncts c) (hor : q.isOr = true) :
    (displayTagExpr u q).length < (displayTagExpr u e).length := by
  have houter : (operandText u c).length ≤ (displayTagExpr u e).length := by
    rw [displayTagExpr_disjuncts u e]
    exact length_le_joined (List.mem_map_of_mem hc)
  have hmiddle : (operandText u q).length ≤ (operandText u c).length := by
    rw [operandText_conjuncts u c]
    exact length_le_joined (List.mem_map_of_mem hq)
  have hlength : (operandText u q).length = (displayTagExpr u q).length + 2 := by simp [operandText, displayOperand, hor]
  omega

/-- The operands of an expression of the parser are of the parser. -/
theorem fromParser_operand {e c q : TagExpr} (h : FromParserExpr e) (hc : c ∈ disjuncts e) (hq : q ∈ conjuncts c) : FromParserExpr q :=
  fun t ht => h t (mem_tags_disjuncts.mpr ⟨c, hc, mem_tags_conjuncts.mpr ⟨q, hq, ht⟩⟩)

/-- An expression whose arguments are all read back is read back. -/
theorem parseTagExprIn_reads {n : Nat} {e : TagExpr} (hn : (displayTagExpr u e).length < n) (hfrom : FromParserExpr e)
    (hread : ReadBackExpr u e) : Reads (parseTagExprIn n) (displayTagExpr u e) EndsExpr e := by
  induction n generalizing e with
  | zero => omega
  | succ n ih =>
    have hsuffix := suffix_parseTagExprIn n
    refine disjunction_reads (suffix_parseAndExpr hsuffix) fun c hc =>
      conjunction_reads (suffix_parseTagPrimary hsuffix) fun q hq => ?_
    have hfromq := fromParser_operand hfrom hc hq
    have hreadq : ReadBackExpr u q := fun t ht => hread t (mem_tags_disjuncts.mpr ⟨c, hc, mem_tags_conjuncts.mpr ⟨q, hq, ht⟩⟩)
    refine primary_reads hfromq hreadq (fun l r he => not_and_of_mem_conjuncts (he ▸ hq)) fun hor => ih ?_ hfromq hreadq
    have hshorter := length_inner (u := u) hc hq hor
    omega

/-- An expression with an argument that is not read back is not taken to its end. -/
theorem parseTagExprIn_stuck {n : Nat} {e : TagExpr} (hn : (displayTagExpr u e).length < n) (hfrom : FromParserExpr e)
    (hbad : ¬ReadBackExpr u e) (r : List Char) : Stuck AtDisjunct (parseTagExprIn n (displayTagExpr u e ++ r)) := by
  induction n generalizing e r with
  | zero => omega
  | succ n ih =>
    have hsuffix := suffix_parseTagExprIn n
    have hfromq : ∀ c ∈ disjuncts e, ∀ q ∈ conjuncts c, FromParserExpr q := fun c hc q hq => fromParser_operand hfrom hc hq
    have hshorter : ∀ c ∈ disjuncts e, ∀ q ∈ conjuncts c, q.isOr = true → (displayTagExpr u q).length < n := by
      intro c hc q hq hor
      have := length_inner (u := u) hc hq hor
      omega
    have hand : ∀ c, ∀ q ∈ conjuncts c, ∀ l r, q ≠ .and l r := fun c q hq l r he => not_and_of_mem_conjuncts (he ▸ hq)
    have hreads : ∀ c ∈ disjuncts e, ∀ q ∈ conjuncts c, ReadBackExpr u q →
        Reads (parseTagPrimary (parseTagExprIn n)) (operandText u q) FollowsTag q := fun c hc q hq hread =>
      primary_reads (hfromq c hc q hq) hread (hand c q hq) fun hor =>
        parseTagExprIn_reads (hshorter c hc q hq hor) (hfromq c hc q hq) hread
    refine disjunction_stuck (suffix_parseAndExpr hsuffix) (fun c hc hread => ?_) (fun c hc hbadc => ?_) hbad r
    · refine conjunction_reads (suffix_parseTagPrimary hsuffix) fun q hq => hreads c hc q hq fun t ht => ?_
      exact hread t (mem_tags_conjuncts.mpr ⟨q, hq, ht⟩)
    · refine conjunction_stuck (suffix_parseTagPrimary hsuffix) (hreads c hc) (fun q hq hbadq => ?_) hbadc
      exact primary_stuck (hfromq c hc q hq) hbadq (hand c q hq) fun hor => ih (hshorter c hc q hq hor) (hfromq c hc q hq) hbadq

end Whole

/-! ## The expressions of the parser -/

/-- A chain of operands of the parser is of the parser. -/
theorem fromParserExpr_foldl {op : TagExpr → TagExpr → TagExpr} (hop : ∀ l r, FromParserExpr l → FromParserExpr r → FromParserExpr (op l r))
    {y : TagExpr} {ys : List TagExpr} (hy : FromParserExpr y) (hys : ∀ z ∈ ys, FromParserExpr z) : FromParserExpr (ys.foldl op y) := by
  induction ys generalizing y with
  | nil => exact hy
  | cons z ys ih => exact ih (hop y z hy (hys z (by simp))) fun w hw => hys w (List.mem_cons_of_mem _ hw)

/-- The parser of a chain yields expressions of the parser. -/
theorem yields_chain {word : String} {operand : Parser TagExpr} {op : TagExpr → TagExpr → TagExpr} (h : Yields operand FromParserExpr)
    (hop : ∀ l r, FromParserExpr l → FromParserExpr r → FromParserExpr (op l r)) : Yields (chain word operand op) FromParserExpr :=
  h.bind fun _ hy => h.preceded.many0.bind fun _ hys => yields_pure (fromParserExpr_foldl hop hy hys)

/-- The tags of an expression that the parser makes are tags that it makes. -/
theorem yields_parseTagExprIn (n : Nat) : Yields (parseTagExprIn n) FromParserExpr := by
  induction n with
  | zero => exact nofun
  | succ n ih =>
    have hprimary : Yields (parseTagPrimary (parseTagExprIn n)) FromParserExpr :=
      ih.delimited.alt (yields_parseTag.bind fun t ht => yields_pure (by simpa [FromParserExpr, TagExpr.tags] using ht))
    have hboth : ∀ l r, FromParserExpr l → FromParserExpr r → ∀ t ∈ l.tags ++ r.tags, FromParser t := fun l r hl hr t ht =>
      (List.mem_append.mp ht).elim (hl t) (hr t)
    exact yields_chain (yields_chain hprimary hboth) hboth

/-! ## The round trip -/

/-- The printed expression is read to its end, as an expression with the same value everywhere and the same names. -/
def RoundTrips (u : AlphanumericTable) (e : TagExpr) : Prop :=
  ∃ e', parseTagExpr (displayTagExpr u e) = .ok (e', []) ∧
    (∀ (σ : Type) (env : ExecutionEnv σ) (ctx : RequestContext) (input : Value), checkTagExpr env ctx input e' = checkTagExpr env ctx input e) ∧
    getAsyncFromTagExpr e' = getAsyncFromTagExpr e ∧ getResultFromTagExpr e' = getResultFromTagExpr e ∧
    getErrorFromTagExpr e' = getErrorFromTagExpr e

/-- Every argument of every tag has a character for which the printer puts it in backticks, or is an identifier. -/
def ArgumentsReadable (u : AlphanumericTable) (e : TagExpr) : Prop :=
  ∀ t ∈ e.tags, ∀ a ∈ t.args, hasSpecial u a.toList = true ∨ IsIdentifier a.toList

/-- An expression of the parser is printed and read back exactly when every argument is one that the printer puts in backticks or the
parser reads without. -/
theorem tagExpr_roundTrips_iff (u : AlphanumericTable) {input rest : List Char} {e : TagExpr} (h : parseTagExpr input = .ok (e, rest)) :
    RoundTrips u e ↔ ArgumentsReadable u e := by
  have hfrom : FromParserExpr e := yields_parseTagExprIn _ _ _ _ h
  constructor
  · rintro ⟨e', hok, -⟩
    by_contra hbad
    have hstuck := parseTagExprIn_stuck (Nat.lt_succ_self _) hfrom hbad []
    rw [List.append_nil] at hstuck
    rcases hstuck with herror | ⟨y, l, hleft, hl⟩
    · rw [parseTagExpr, herror] at hok
      cases hok
    · rw [parseTagExpr, hleft] at hok
      cases hok
      rcases hl with (⟨l', hl⟩ | ⟨l', hl⟩) | ⟨l', hl⟩ <;> cases hl
  · intro hread
    obtain ⟨e', hok, hsame⟩ := parseTagExprIn_reads (Nat.lt_succ_self _) hfrom hread [] endsExpr_nil
    rw [List.append_nil] at hok
    exact ⟨e', hok, fun σ env ctx input => hsame.value env ctx input, hsame.name _, hsame.name _, hsame.name _⟩

/-- The letters and digits of ASCII alone. -/
def asciiTable : AlphanumericTable where
  isAlphanumeric := Text.isAsciiAlphanumeric
  ascii _ _ := rfl

/-- `@flag(beta) and @when(a b)`, with the second argument in backticks. -/
theorem flag_and_when_roundTrips :
    RoundTrips asciiTable (.and (.tag { name := "flag", negated := false, args := ["beta"] })
      (.tag { name := "when", negated := true, args := ["a b"] })) := by
  refine (@tagExpr_roundTrips_iff asciiTable "@flag(beta) and @!when(`a b`)".toList [] _ (by decide +kernel)).mpr ?_
  intro t ht a ha
  simp only [TagExpr.tags, List.cons_append, List.nil_append, List.mem_cons, List.not_mem_nil, or_false] at ht
  rcases ht with rfl | rfl
  · rw [List.mem_singleton.mp ha]
    exact Or.inr ⟨'b', ['e', 't', 'a'], by decide, by decide, Text.forall_mem_of_all (by decide)⟩
  · rw [List.mem_singleton.mp ha]
    exact Or.inl (by decide +kernel)

/-- An empty argument in backticks is printed as nothing, and the printed tag is read without its arguments. -/
theorem empty_argument_not_reread :
    parseTagExpr "@when(``)".toList = .ok (.tag { name := "when", negated := false, args := [""] }, []) ∧
      parseTagExpr (displayTagExpr asciiTable (.tag { name := "when", negated := false, args := [""] })) =
        .ok (.tag { name := "when", negated := false, args := [] }, "()".toList) ∧
      ¬RoundTrips asciiTable (.tag { name := "when", negated := false, args := [""] }) := by
  have hagain : parseTagExpr (displayTagExpr asciiTable (.tag { name := "when", negated := false, args := [""] })) =
      .ok (.tag { name := "when", negated := false, args := [] }, "()".toList) := by decide +kernel
  refine ⟨by decide +kernel, hagain, ?_⟩
  rintro ⟨e', hok, -⟩
  rw [hagain] at hok
  cases hok

end Parser
end WebPipe
