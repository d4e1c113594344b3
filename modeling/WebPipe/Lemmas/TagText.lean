import WebPipe.Lemmas.Tokens
import WebPipe.Parser.Tags

/-!
# The text of a tag

How the parser reads what the printer writes for one tag. An argument that the printer does not put in backticks is read back when it is
an identifier; another one stops the parser before the argument list.
-/

namespace WebPipe
namespace Parser

open Nom

/-- What the parser makes: the name is an identifier, and no argument has a backtick. -/
structure FromParser (t : Tag) : Prop where
  name : IsIdentifier t.name.toList
  args : ∀ a ∈ t.args, '\x60' ∉ a.toList

/-- An argument is read back: the printer puts it in backticks, or it is an identifier. -/
def ReadBack (u : AlphanumericTable) (a : String) : Prop := hasSpecial u a.toList = true ∨ IsIdentifier a.toList

/-- What starts with another character is no text in backticks. -/
theorem parseMultilineString_of_ne {c : Char} (h : c ≠ '\x60') (l : List Char) : parseMultilineString (c :: l) = .error .error :=
  between_of_ne h l

/-- One argument after blanks. -/
def nextArg : Parser String := preceded multispace0 parseTagArgument

/-- White space is ASCII. -/
theorem not_multispace_of_le {c : Char} (h : 128 ≤ c.toNat) : isMultispace c = false := by
  by_contra hc
  rcases isMultispace_cases (Bool.not_eq_false _ ▸ hc) with rfl | rfl | rfl | rfl <;> exact absurd h (by decide)

/-- A character that the printer writes as it is: part of an identifier, or not ASCII. -/
theorem bare_char {u : AlphanumericTable} {a : List Char} (h : hasSpecial u a = false) {c : Char} (hc : c ∈ a) :
    isIdentRest c = true ∨ 128 ≤ c.toNat := by
  by_cases hascii : c.toNat < 128
  · refine Or.inl ?_
    have hbare := List.any_eq_false.mp h c hc
    rw [u.ascii c hascii] at hbare
    by_contra hrest
    simp only [isIdentRest, isIdentStart, Bool.or_eq_true, decide_eq_true_eq, not_or] at hrest
    simp [hrest.1.1, hrest.1.2, hrest.2] at hbare
  · exact Or.inr (Nat.not_lt.mp hascii)

/-- No printed argument starts with white space. -/
theorem noBlank_displayArg (u : AlphanumericTable) (a : String) {l : List Char} (hl : NoBlank l) :
    NoBlank (displayArg u a ++ l) := by
  unfold displayArg
  cases hs : hasSpecial u a.toList with
  | true => exact noBlank_cons (by decide) _
  | false =>
    rw [if_neg Bool.false_ne_true]
    cases ha : a.toList with
    | nil => exact hl
    | cons c cs =>
      rcases bare_char hs (by rw [ha]; exact List.mem_cons_self ..) with hc | hc
      · exact noBlank_cons (not_multispace_of_rest hc) _
      · exact noBlank_cons (not_multispace_of_le hc) _

/-- An argument without blanks before it. -/
theorem nextArg_of_noBlank {l : List Char} (h : NoBlank l) : nextArg l = parseTagArgument l := by
  rw [nextArg, preceded, bind_of_ok (multispace0_of_noBlank h)]

/-- An argument that is read back. -/
theorem nextArg_of_readBack {u : AlphanumericTable} {a : String} (ha : ReadBack u a) (hbacktick : '\x60' ∉ a.toList) {r : List Char}
    (hr : EndsIdent r) (hb : NoBlank r) : nextArg (displayArg u a ++ r) = .ok (a, r) := by
  rw [nextArg_of_noBlank (noBlank_displayArg u a hb), parseTagArgument]
  unfold displayArg
  cases hs : hasSpecial u a.toList with
  | true =>
    rw [if_pos rfl, List.cons_append, List.append_assoc]
    have hbetween := between_append hbacktick r
    rw [String.ofList_toList] at hbetween
    exact alt_of_ok hbetween
  | false =>
    rw [if_neg Bool.false_ne_true]
    have hident : IsIdentifier a.toList := ha.resolve_left (by rw [hs]; exact Bool.false_ne_true)
    have hparse := parseIdentifier_append hident hr
    rw [String.ofList_toList] at hparse
    have hne : parseMultilineString (a.toList ++ r) = .error .error := by
      obtain ⟨c, l, hc, hstart, -⟩ := hident
      rw [hc]
      refine between_of_ne ?_ _
      rintro rfl
      exact absurd hstart (by decide)
    rw [alt_of_error hne]
    exact hparse

/-- The parser did not come to the end of an argument: it fails, or stops at a character that ends no argument. -/
def StopsShort (x : Except Err (String × List Char)) : Prop :=
  x = .error .error ∨ ∃ a d l, x = .ok (a, d :: l) ∧ d ≠ ',' ∧ d ≠ ')'

/-- An argument that is not read back. -/
theorem nextArg_of_not_readBack {u : AlphanumericTable} {a : String} (ha : ¬ReadBack u a) {d : Char} (hd : d = ',' ∨ d = ')')
    (l : List Char) : StopsShort (nextArg (displayArg u a ++ d :: l)) := by
  obtain ⟨hspecial, hident⟩ := not_or.mp ha
  have hspecial : hasSpecial u a.toList = false := by simpa using hspecial
  have hblank : NoBlank (d :: l) := noBlank_cons (by rcases hd with rfl | rfl <;> decide) l
  have hdstart : isIdentStart d = false ∧ d ≠ '\x60' := by rcases hd with rfl | rfl <;> decide
  rw [nextArg_of_noBlank (noBlank_displayArg u a hblank), parseTagArgument]
  unfold displayArg
  rw [if_neg (by rw [hspecial]; exact Bool.false_ne_true)]
  cases hchars : a.toList with
  | nil =>
    rw [List.nil_append, alt_of_error (parseMultilineString_of_ne hdstart.2 l)]
    refine Or.inl (parseIdentifier_of_not ?_)
    rintro _ _ ⟨⟩
    exact hdstart.1
  | cons c cs =>
    rw [hchars] at hspecial hident
    have hbacktick : c ≠ '\x60' := by
      rintro rfl
      rcases bare_char hspecial (List.mem_cons_self ..) with h | h <;> revert h <;> decide
    rw [List.cons_append, alt_of_error (parseMultilineString_of_ne hbacktick _)]
    by_cases hc : isIdentStart c = true
    · -- the identifier is taken up to a character that is no part of it, inside the argument
      have hsome : ∃ x ∈ cs, ¬isIdentRest x = true := by
        by_contra hall
        push Not at hall
        exact hident ⟨c, cs, rfl, hc, hall⟩
      have hsplit := List.takeWhile_append_dropWhile (p := isIdentRest) (l := cs)
      cases hrest : cs.dropWhile isIdentRest with
      | nil =>
        obtain ⟨x, hx, hnot⟩ := hsome
        exact absurd (List.dropWhile_eq_nil_iff.mp hrest x hx) hnot
      | cons x post =>
        have hx : isIdentRest x = false := endsIdent_dropWhile cs x post hrest
        have hmem : x ∈ c :: cs := by
          rw [← hsplit, hrest]
          simp
        have hlarge : 128 ≤ x.toNat := (bare_char hspecial hmem).resolve_left (by rw [hx]; exact Bool.false_ne_true)
        have htaken : IsIdentifier (c :: cs.takeWhile isIdentRest) := ⟨c, _, rfl, hc, fun e he => List.mem_takeWhile_imp he⟩
        refine Or.inr ⟨String.ofList (c :: cs.takeWhile isIdentRest), x, post ++ d :: l, ?_, ?_, ?_⟩
        · nth_rewrite 1 [← hsplit]
          rw [hrest, List.append_assoc, ← List.cons_append]
          exact parseIdentifier_append htaken (endsIdent_cons hx _)
        · rintro rfl
          exact absurd hlarge (by decide)
        · rintro rfl
          exact absurd hlarge (by decide)
    · refine Or.inl (parseIdentifier_of_not ?_)
      rintro _ _ ⟨⟩
      simpa using hc

/-! ## Lists of arguments -/

/-- One more argument after a separator. -/
def moreArgs : Parser (List String) := many0 (preceded argSeparator nextArg)

theorem eats_argSeparator : Eats argSeparator := (eats_char ',').bind fun _ => suffix_multispace0.bind fun _ => suffix_pure _

theorem suffix_nextArg : Suffix nextArg :=
  suffix_multispace0.preceded ((eats_between _).suffix.alt eats_parseIdentifier.suffix)

theorem suffix_moreArg : Suffix (preceded argSeparator nextArg) := eats_argSeparator.suffix.preceded suffix_nextArg

/-- The list stops at a character that separates no arguments. -/
theorem moreArgs_stop {d : Char} (h : d ≠ ',') (l : List Char) : moreArgs (d :: l) = .ok ([], d :: l) := by
  have hsep : argSeparator (d :: l) = .error .error := by rw [argSeparator, bind_of_error (char_of_ne h l)]
  exact many0_of_error (by rw [preceded, bind_of_error hsep])

/-- A comma separates arguments. -/
theorem argSeparator_comma {l : List Char} (h : NoBlank l) : argSeparator (',' :: l) = .ok ((), l) := by
  rw [argSeparator, bind_of_ok (char_self ..), bind_of_ok (multispace0_of_noBlank h)]
  rfl

/-- After a separator there is one more argument, when it can be read. -/
theorem moreArgs_comma {l l' : List Char} {a : String} (h : NoBlank l) (ha : nextArg l = .ok (a, l')) :
    moreArgs (',' :: l) = (do let as ← moreArgs; pure (a :: as) : Parser (List String)) l' := by
  have hone : preceded argSeparator nextArg (',' :: l) = .ok (a, l') := by
    rw [preceded, bind_of_ok (argSeparator_comma h)]
    exact ha
  have hle := (suffix_nextArg l a l' ha).length_le
  exact many0_of_ok suffix_moreArg hone (by rw [List.length_cons]; omega)

/-- A comma without an argument after it stays. -/
theorem moreArgs_comma_of_error {l : List Char} (h : NoBlank l) (ha : nextArg l = .error .error) :
    moreArgs (',' :: l) = .ok ([], ',' :: l) := by
  refine many0_of_error ?_
  rw [preceded, bind_of_ok (argSeparator_comma h)]
  exact ha

/-- The printed arguments, with the parenthesis after them. -/
def argsText (u : AlphanumericTable) (as : List String) (r : List Char) : List Char :=
  [','].intercalate (as.map (displayArg u)) ++ ')' :: r

theorem argsText_singleton (u : AlphanumericTable) (a : String) (r : List Char) :
    argsText u [a] r = displayArg u a ++ ')' :: r := by
  simp [argsText, List.intercalate]

theorem argsText_cons (u : AlphanumericTable) (a b : String) (as : List String) (r : List Char) :
    argsText u (a :: b :: as) r = displayArg u a ++ ',' :: argsText u (b :: as) r := by
  simp [argsText, List.intercalate]

/-- Arguments start with no blank. -/
theorem noBlank_argsText (u : AlphanumericTable) (as : List String) (r : List Char) : NoBlank (argsText u as r) := by
  match as with
  | [] => exact noBlank_cons (by decide) _
  | [a] =>
    rw [argsText_singleton]
    exact noBlank_displayArg u a (noBlank_cons (by decide) _)
  | a :: b :: as =>
    rw [argsText_cons]
    exact noBlank_displayArg u a (noBlank_cons (by decide) _)

/-- Printed arguments that are all read back. -/
theorem args_of_readBack {u : AlphanumericTable} {a : String} {as : List String} (hread : ∀ b ∈ a :: as, ReadBack u b)
    (hbacktick : ∀ b ∈ a :: as, '\x60' ∉ b.toList) (r : List Char) :
    ∃ l, nextArg (argsText u (a :: as) r) = .ok (a, l) ∧ moreArgs l = .ok (as, ')' :: r) := by
  induction as generalizing a with
  | nil =>
    refine ⟨')' :: r, ?_, moreArgs_stop (by decide) r⟩
    rw [argsText_singleton]
    exact nextArg_of_readBack (hread a (by simp)) (hbacktick a (by simp)) (endsIdent_cons (by decide) _) (noBlank_cons (by decide) _)
  | cons b as ih =>
    obtain ⟨l, hnext, hmore⟩ := ih (fun c hc => hread c (List.mem_cons_of_mem _ hc)) fun c hc => hbacktick c (List.mem_cons_of_mem _ hc)
    refine ⟨',' :: argsText u (b :: as) r, ?_, ?_⟩
    · rw [argsText_cons]
      exact nextArg_of_readBack (hread a (by simp)) (hbacktick a (by simp)) (endsIdent_cons (by decide) _)
        (noBlank_cons (by decide) _)
    · rw [moreArgs_comma (noBlank_argsText u (b :: as) r) hnext, bind_of_ok hmore]
      rfl

/-- Printed arguments that are not all read back: the parser fails, or does not come to the closing parenthesis. -/
theorem args_of_not_readBack {u : AlphanumericTable} {a : String} {as : List String} (hbad : ∃ b ∈ a :: as, ¬ReadBack u b)
    (hbacktick : ∀ b ∈ a :: as, '\x60' ∉ b.toList) (r : List Char) :
    nextArg (argsText u (a :: as) r) = .error .error ∨
      ∃ b l bs d l', nextArg (argsText u (a :: as) r) = .ok (b, l) ∧ moreArgs l = .ok (bs, d :: l') ∧ d ≠ ')' := by
  induction as generalizing a with
  | nil =>
    obtain ⟨b, hb, hnot⟩ := hbad
    rw [List.mem_singleton] at hb
    subst hb
    rw [argsText_singleton]
    rcases nextArg_of_not_readBack hnot (Or.inr rfl) r with herror | ⟨b, d, l, hok, hcomma, hparen⟩
    · exact Or.inl herror
    · exact Or.inr ⟨b, d :: l, [], d, l, hok, moreArgs_stop hcomma l, hparen⟩
  | cons b as ih =>
    rw [argsText_cons]
    by_cases ha : ReadBack u a
    · have hrest : ∃ c ∈ b :: as, ¬ReadBack u c := by
        obtain ⟨c, hc, hnot⟩ := hbad
        rcases List.mem_cons.mp hc with rfl | hc
        · exact absurd ha hnot
        · exact ⟨c, hc, hnot⟩
      have hfirst := nextArg_of_readBack ha (hbacktick a (by simp)) (r := ',' :: argsText u (b :: as) r)
        (endsIdent_cons (by decide) _) (noBlank_cons (by decide) _)
      refine Or.inr ?_
      rcases ih hrest fun c hc => hbacktick c (List.mem_cons_of_mem _ hc) with herror | ⟨c, l, bs, d, l', hok, hmore, hd⟩
      · exact ⟨a, _, [], ',', _, hfirst, moreArgs_comma_of_error (noBlank_argsText u (b :: as) r) herror, by decide⟩
      · refine ⟨a, _, c :: bs, d, l', hfirst, ?_, hd⟩
        rw [moreArgs_comma (noBlank_argsText u (b :: as) r) hok, bind_of_ok hmore]
        rfl
    · rcases nextArg_of_not_readBack ha (Or.inl rfl) (argsText u (b :: as) r) with herror | ⟨c, d, l, hok, hcomma, hparen⟩
      · exact Or.inl herror
      · exact Or.inr ⟨c, d :: l, [], d, l, hok, moreArgs_stop hcomma l, hparen⟩

/-- An argument and the others make the list. -/
theorem argList_of_ok {l l₁ l₂ : List Char} {a : String} {as : List String} (ha : nextArg l = .ok (a, l₁))
    (has : moreArgs l₁ = .ok (as, l₂)) : separatedList1 argSeparator nextArg l = .ok (a :: as, l₂) := by
  rw [separatedList1, bind_of_ok ha]
  exact bind_of_ok has _

/-- A printed list of arguments that are all read back. -/
theorem parseTagArgs_of_readBack {u : AlphanumericTable} {a : String} {as : List String} (hread : ∀ b ∈ a :: as, ReadBack u b)
    (hbacktick : ∀ b ∈ a :: as, '\x60' ∉ b.toList) (r : List Char) :
    parseTagArgs ('(' :: argsText u (a :: as) r) = .ok (a :: as, r) := by
  obtain ⟨l, hnext, hmore⟩ := args_of_readBack hread hbacktick r
  rw [parseTagArgs, ← nextArg, delimited, bind_of_ok (char_self ..), bind_of_ok (argList_of_ok hnext hmore), bind_of_ok (char_self ..)]
  rfl

/-- A printed list of arguments that are not all read back is no list of arguments. -/
theorem parseTagArgs_of_not_readBack {u : AlphanumericTable} {a : String} {as : List String} (hbad : ∃ b ∈ a :: as, ¬ReadBack u b)
    (hbacktick : ∀ b ∈ a :: as, '\x60' ∉ b.toList) (r : List Char) :
    parseTagArgs ('(' :: argsText u (a :: as) r) = .error .error := by
  rw [parseTagArgs, ← nextArg, delimited, bind_of_ok (char_self ..)]
  rcases args_of_not_readBack hbad hbacktick r with herror | ⟨b, l, bs, d, l', hnext, hmore, hd⟩
  · rw [bind_of_error]
    rw [separatedList1, bind_of_error herror]
  · rw [bind_of_ok (argList_of_ok hnext hmore), bind_of_error (char_of_ne hd l')]

/-! ## Tags -/

/-- Text that may follow a tag. -/
def FollowsTag (r : List Char) : Prop := ∀ c l, r = c :: l → c = ' ' ∨ c = ')'

theorem followsTag_nil : FollowsTag [] := nofun

theorem followsTag_cons {c : Char} (h : c = ' ' ∨ c = ')') (l : List Char) : FollowsTag (c :: l) := by
  rintro _ _ ⟨⟩
  exact h

/-- What follows a tag ends an identifier. -/
theorem FollowsTag.endsIdent {r : List Char} (h : FollowsTag r) : EndsIdent r := by
  intro c l hr
  rcases h c l hr with rfl | rfl <;> decide

/-- No list of arguments starts in a text that may follow a tag. -/
theorem FollowsTag.noArgs {r : List Char} (h : FollowsTag r) : parseTagArgs r = .error .error := by
  rw [parseTagArgs, delimited, bind_of_error]
  cases r with
  | nil => rfl
  | cons c l =>
    refine char_of_ne ?_ l
    rcases h c l rfl with rfl | rfl <;> decide

/-- A negation is read where there is one. -/
theorem opt_negation (negated : Bool) {l : List Char} (h : ∀ c l', l = c :: l' → c ≠ '!') :
    opt (char '!') ((if negated then ['!'] else []) ++ l) = .ok (if negated then some () else none, l) := by
  cases negated with
  | true => exact opt_of_ok (char_self ..)
  | false =>
    refine opt_of_error ?_
    cases l with
    | nil => rfl
    | cons c l' => exact char_of_ne (h c l' rfl) l'

/-- The printed tag up to its arguments. -/
theorem parseTag_displayTag {t : Tag} (ht : FromParser t) {args r : List Char}
    (hargs : EndsIdent args) {as : Option (List String)} (h : opt parseTagArgs args = .ok (as, r)) :
    parseTag ('@' :: ((if t.negated then ['!'] else []) ++ (t.name.toList ++ args))) = .ok ({ t with args := as.getD [] }, r) := by
  have hname : ∀ c l', t.name.toList ++ args = c :: l' → c ≠ '!' := by
    obtain ⟨a, l, hl, ha, -⟩ := ht.name
    rw [hl]
    rintro c l' hc rfl
    obtain ⟨rfl, -⟩ := List.cons.inj hc
    exact absurd ha (by decide)
  have hident := parseIdentifier_append ht.name hargs
  rw [String.ofList_toList] at hident
  rw [parseTag, bind_of_ok (char_self ..), bind_of_ok (opt_negation t.negated hname), bind_of_ok hident, bind_of_ok h]
  cases t with
  | mk name negated args => cases negated <;> rfl

/-- A printed tag is read back when its arguments are. -/
theorem parseTag_of_readBack {u : AlphanumericTable} {t : Tag} (ht : FromParser t) (hread : ∀ a ∈ t.args, ReadBack u a)
    {r : List Char} (hr : FollowsTag r) : parseTag (displayTag u t ++ r) = .ok (t, r) := by
  obtain ⟨name, negated, args⟩ := t
  cases args with
  | nil =>
    have hdisplay : displayTag u ⟨name, negated, []⟩ ++ r = '@' :: ((if negated then ['!'] else []) ++ (name.toList ++ r)) := by
      simp [displayTag]
    rw [hdisplay]
    exact parseTag_displayTag ht hr.endsIdent (opt_of_error hr.noArgs)
  | cons a as =>
    have hdisplay : displayTag u ⟨name, negated, a :: as⟩ ++ r =
        '@' :: ((if negated then ['!'] else []) ++ (name.toList ++ '(' :: argsText u (a :: as) r)) := by
      simp [displayTag, argsText]
    rw [hdisplay]
    exact parseTag_displayTag ht (endsIdent_cons (by decide) _)
      (opt_of_ok (parseTagArgs_of_readBack hread ht.args r))

/-- A printed tag with an argument that is not read back is read without its arguments. -/
theorem parseTag_of_not_readBack {u : AlphanumericTable} {t : Tag} (ht : FromParser t) (hbad : ∃ a ∈ t.args, ¬ReadBack u a)
    (r : List Char) : ∃ t' l, parseTag (displayTag u t ++ r) = .ok (t', '(' :: l) := by
  obtain ⟨name, negated, args⟩ := t
  cases args with
  | nil =>
    obtain ⟨a, ha, -⟩ := hbad
    cases ha
  | cons a as =>
    have hdisplay : displayTag u ⟨name, negated, a :: as⟩ ++ r =
        '@' :: ((if negated then ['!'] else []) ++ (name.toList ++ '(' :: argsText u (a :: as) r)) := by
      simp [displayTag, argsText]
    rw [hdisplay]
    exact ⟨_, _, parseTag_displayTag ht (endsIdent_cons (by decide) _)
      (opt_of_error (parseTagArgs_of_not_readBack hbad ht.args r))⟩

/-- An identifier has no backtick. -/
theorem not_mem_of_isIdentifier {s : List Char} (h : IsIdentifier s) : '\x60' ∉ s := fun hmem =>
  absurd (h.rest _ hmem) (by decide)

/-- An argument has no backtick in it. -/
theorem yields_parseTagArgument : Yields parseTagArgument fun a => '\x60' ∉ a.toList :=
  (yields_between '\x60').alt fun _ _ _ h => not_mem_of_isIdentifier (parseIdentifier_eq_ok h).2.1

/-- The tags of the parser. -/
theorem yields_parseTag : Yields parseTag FromParser := by
  refine yields_bind fun _ => yields_bind fun _ => yields_parseIdentifier.bind fun name hname =>
    yields_parseTagArgument.preceded.separatedList1.delimited.opt.bind fun args hargs => yields_pure ⟨hname, ?_⟩
  cases args with
  | none => exact nofun
  | some as => exact hargs as rfl

end Parser
end WebPipe
