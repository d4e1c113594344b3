import WebPipe.Parser.Tokens

/-!
# What the basic parsers take

Blanks and comments are passed up to text that starts with neither. An identifier is taken to its end, whatever pieces the combinators
take it in; a text in backticks is taken to the next backtick.
-/

namespace WebPipe
namespace Parser

open Nom

/-! ## Blanks and comments -/

/-- One turn of the loop that comes to text. -/
theorem skipLoop_text {l : List Char} (h : (l.dropWhile isMultispace).head? ≠ some '#') (n : Nat) :
    skipLoop (n + 1) l = .ok ((), l.dropWhile isMultispace) := by
  rw [skipLoop, bind_of_ok rfl, bind_of_ok rfl, if_neg h]
  rfl

/-- Skipping leaves an end of the text. -/
theorem suffix_skipLoop (n : Nat) : Suffix (skipLoop n) := by
  induction n with
  | zero => exact suffix_fail
  | succ n ih =>
    unfold skipLoop
    refine suffix_multispace0.bind fun _ => suffix_rest.bind fun fragment => ?_
    split
    · split
      · exact (suffix_take _).bind fun _ => ih
      · exact (suffix_take _).bind fun _ => ih
    · exact suffix_pure _

theorem suffix_skipWsAndComments : Suffix skipWsAndComments := fun l => suffix_skipLoop (l.length + 1) l

/-- Text that starts with no blank and no comment. -/
def NotBlank (l : List Char) : Prop := ∀ c l', l = c :: l' → isMultispace c = false ∧ c ≠ '#'

theorem notBlank_cons {c : Char} (hc : isMultispace c = false) (hhash : c ≠ '#') (l : List Char) : NotBlank (c :: l) := by
  rintro _ _ ⟨⟩
  exact ⟨hc, hhash⟩

/-- White space before text is passed. -/
theorem skip_blanks {ws l : List Char} (hws : ∀ c ∈ ws, isMultispace c = true) (h : NotBlank l) :
    skipWsAndComments (ws ++ l) = .ok ((), l) := by
  have hdrop : (ws ++ l).dropWhile isMultispace = l := (takeWhile_append_of hws fun c l' hl => (h c l' hl).1).2
  have hhash : l.head? ≠ some '#' := by
    cases l with
    | nil => simp
    | cons c l' => simpa using (h c l' rfl).2
  have hskip := skipLoop_text (l := ws ++ l) (by rw [hdrop]; exact hhash) (ws ++ l).length
  rw [hdrop] at hskip
  exact hskip

/-- Nothing is skipped where nothing is blank. -/
theorem skip_notBlank {l : List Char} (h : NotBlank l) : skipWsAndComments l = .ok ((), l) :=
  skip_blanks (List.forall_mem_nil _) h

/-- What is left starts with no blank. -/
theorem notBlank_of_skipLoop {n : Nat} {l r : List Char} (h : skipLoop n l = .ok ((), r)) : NotBlank r := by
  induction n generalizing l with
  | zero => cases h
  | succ n ih =>
    rw [skipLoop, bind_of_ok rfl, bind_of_ok rfl] at h
    split at h
    · generalize find '\n' (l.dropWhile isMultispace) = newline at h
      cases newline with
      | none =>
        obtain ⟨_, l', -, hrest⟩ := bind_eq_ok h
        exact ih hrest
      | some newlinePos =>
        obtain ⟨_, l', -, hrest⟩ := bind_eq_ok h
        exact ih hrest
    · next hhash =>
      cases h
      intro c l' hl
      have hhead := List.head?_dropWhile_not isMultispace l
      rw [hl] at hhead hhash
      exact ⟨by simpa using hhead, fun he => hhash (congrArg some he)⟩

/-- What is left after skipping starts with nothing that is skipped. -/
theorem notBlank_of_skip {l r : List Char} (h : skipWsAndComments l = .ok ((), r)) : NotBlank r := notBlank_of_skipLoop h

/-! ## White space -/

/-- The text does not start with white space. -/
def NoBlank (l : List Char) : Prop := ∀ c l', l = c :: l' → isMultispace c = false

/-- No blank is taken where there is none. -/
theorem multispace0_of_noBlank {l : List Char} (h : NoBlank l) : multispace0 l = .ok ([], l) := by
  cases l with
  | nil => rfl
  | cons c l =>
    have hc : ¬isMultispace c = true := by simp [h c l rfl]
    unfold multispace0 Nom.takeWhile
    rw [List.takeWhile_cons_of_neg hc, List.dropWhile_cons_of_neg hc]

theorem noBlank_cons {c : Char} (h : isMultispace c = false) (l : List Char) : NoBlank (c :: l) := by
  rintro _ _ ⟨⟩
  exact h

/-- Blanks are taken up to the first character that is none. -/
theorem multispace0_append {ws l : List Char} (hws : ∀ c ∈ ws, isMultispace c = true) (h : NoBlank l) :
    multispace0 (ws ++ l) = .ok (ws, l) := by
  have hsplit := takeWhile_append_of hws h
  exact congrArg Except.ok (Prod.ext hsplit.1 hsplit.2)

/-! ## Identifiers -/

/-- A character that an identifier may start with. -/
def isIdentStart (c : Char) : Bool := Text.isAsciiAlphanumeric c || c = '_'

/-- A character of an identifier after its start. -/
def isIdentRest (c : Char) : Bool := isIdentStart c || c = '-'

/-- An identifier. -/
def IsIdentifier (s : List Char) : Prop := ∃ a l, s = a :: l ∧ isIdentStart a = true ∧ ∀ c ∈ l, isIdentRest c = true

theorem isIdentRest_of_start {c : Char} (h : isIdentStart c = true) : isIdentRest c = true := by simp [isIdentRest, h]

theorem IsIdentifier.rest {s : List Char} (h : IsIdentifier s) : ∀ c ∈ s, isIdentRest c = true := by
  obtain ⟨a, l, rfl, ha, hl⟩ := h
  intro c hc
  rcases List.mem_cons.mp hc with rfl | hc
  · exact isIdentRest_of_start ha
  · exact hl c hc

/-- The four blanks. -/
theorem isMultispace_cases {c : Char} (h : isMultispace c = true) : c = ' ' ∨ c = '\t' ∨ c = '\r' ∨ c = '\n' := by
  simpa [isMultispace, or_assoc] using h

/-- White space is no part of an identifier. -/
theorem not_multispace_of_rest {c : Char} (h : isIdentRest c = true) : isMultispace c = false := by
  by_contra hc
  rcases isMultispace_cases (Bool.not_eq_false _ ▸ hc) with rfl | rfl | rfl | rfl <;> exact absurd h (by decide)

/-- An identifier starts with no blank. -/
theorem IsIdentifier.noBlank {s : List Char} (hs : IsIdentifier s) (r : List Char) : NoBlank (s ++ r) := by
  obtain ⟨a, l, rfl, ha, -⟩ := hs
  exact noBlank_cons (not_multispace_of_rest (isIdentRest_of_start ha)) _

/-- Text does not go on as an identifier. -/
def EndsIdent (l : List Char) : Prop := ∀ c l', l = c :: l' → isIdentRest c = false

theorem endsIdent_cons {c : Char} (h : isIdentRest c = false) (l : List Char) : EndsIdent (c :: l) := by
  rintro _ _ ⟨⟩
  exact h

/-- An identifier is read to its end. -/
theorem endsIdent_dropWhile (l : List Char) : EndsIdent (l.dropWhile isIdentRest) := by
  intro c l' h
  have hhead := List.head?_dropWhile_not isIdentRest l
  rw [h] at hhead
  simpa using hhead

/-- Dropping some characters with a property first makes no difference to dropping all. -/
theorem dropWhile_dropWhile_of_imp {p q : Char → Bool} (h : ∀ c, p c = true → q c = true) (l : List Char) :
    (l.dropWhile p).dropWhile q = l.dropWhile q := by
  induction l with
  | nil => rfl
  | cons c l ih =>
    by_cases hc : p c = true
    · rw [List.dropWhile_cons_of_pos hc, List.dropWhile_cons_of_pos (h c hc), ih]
    · rw [List.dropWhile_cons_of_neg hc]

theorem eats_identifierStart : Eats identifierStart :=
  (((eats_takeWhile1 _).bind fun _ => suffix_pure _).alt (eats_tag (by decide))).bind fun _ => suffix_pure _

theorem eats_identifierRest : Eats identifierRest := eats_identifierStart.alt ((eats_tag (by decide)).bind fun _ => suffix_pure _)

/-- A piece of an identifier starts where an identifier may, and leaves an end of the identifier. -/
theorem identifierStart_of_start {c : Char} {l : List Char} (h : isIdentStart c = true) :
    ∃ r, identifierStart (c :: l) = .ok ((), r) ∧ r.length < (c :: l).length ∧ r.dropWhile isIdentRest = (c :: l).dropWhile isIdentRest := by
  by_cases hc : Text.isAsciiAlphanumeric c = true
  · have htake : takeWhile1 Text.isAsciiAlphanumeric (c :: l) =
        .ok ((c :: l).takeWhile Text.isAsciiAlphanumeric, (c :: l).dropWhile Text.isAsciiAlphanumeric) := by
      refine if_neg ?_
      rw [List.takeWhile_cons_of_pos hc]
      simp
    have halt : (alt (do let s ← takeWhile1 Text.isAsciiAlphanumeric; pure (String.ofList s)) (tag "_") : Parser String) (c :: l) =
        .ok (String.ofList ((c :: l).takeWhile Text.isAsciiAlphanumeric), (c :: l).dropWhile Text.isAsciiAlphanumeric) :=
      alt_of_ok (by rw [bind_of_ok htake]; rfl)
    refine ⟨_, by rw [identifierStart, bind_of_ok halt]; rfl, ?_, ?_⟩
    · exact (eats_takeWhile1 _ _ _ _ htake).2
    · exact dropWhile_dropWhile_of_imp (fun c hc => by simp [isIdentRest, isIdentStart, hc]) _
  · have hunder : c = '_' := by simpa [isIdentStart, hc] using h
    subst hunder
    have htake : takeWhile1 Text.isAsciiAlphanumeric ('_' :: l) = .error .error := by
      refine if_pos ?_
      rw [List.takeWhile_cons_of_neg hc]
      rfl
    have halt : (alt (do let s ← takeWhile1 Text.isAsciiAlphanumeric; pure (String.ofList s)) (tag "_") : Parser String) ('_' :: l) =
        .ok ("_", l) := by
      rw [alt_of_error (by rw [bind_of_error htake])]
      exact tag_append "_" l
    exact ⟨l, by rw [identifierStart, bind_of_ok halt]; rfl, by simp, (List.dropWhile_cons_of_pos rfl).symm⟩

/-- Elsewhere there is an error. -/
theorem identifierStart_of_not {l : List Char} (h : ∀ c l', l = c :: l' → isIdentStart c = false) :
    identifierStart l = .error .error := by
  have htake : takeWhile1 Text.isAsciiAlphanumeric l = .error .error := by
    refine if_pos ?_
    cases l with
    | nil => rfl
    | cons c l =>
      have hc : ¬Text.isAsciiAlphanumeric c = true := by
        have := h c l rfl
        simp [isIdentStart] at this
        simp [this.1]
      rw [List.takeWhile_cons_of_neg hc]
      rfl
  have htag : tag "_" l = .error .error := by
    refine tag_eq_error ?_
    rintro ⟨r, rfl⟩
    exact absurd (h '_' r rfl) (by decide)
  rw [identifierStart, bind_of_error (e := .error)]
  rw [alt_of_error (by rw [bind_of_error htake]), htag]

/-- What follows the start of an identifier is taken to its end. -/
theorem many0_identifierRest (l : List Char) : ∃ us, many0 identifierRest l = .ok (us, l.dropWhile isIdentRest) := by
  induction hn : l.length using Nat.strongRecOn generalizing l with
  | ind n ih =>
    by_cases hstart : ∃ c l', l = c :: l' ∧ isIdentRest c = true
    · obtain ⟨c, l', rfl, hc⟩ := hstart
      obtain ⟨r, hr, hlt, hdrop⟩ : ∃ r, identifierRest (c :: l') = .ok ((), r) ∧ r.length < (c :: l').length ∧
          r.dropWhile isIdentRest = (c :: l').dropWhile isIdentRest := by
        by_cases hs : isIdentStart c = true
        · obtain ⟨r, hr, hlt, hdrop⟩ := identifierStart_of_start (l := l') hs
          exact ⟨r, alt_of_ok hr, hlt, hdrop⟩
        · have hdash : c = '-' := by simpa [isIdentRest, hs] using hc
          subst hdash
          refine ⟨l', ?_, by simp, (List.dropWhile_cons_of_pos rfl).symm⟩
          rw [identifierRest, alt_of_error (identifierStart_of_not fun d l'' h => by cases h; rfl)]
          exact bind_of_ok (tag_append "-" l') _
      obtain ⟨us, hus⟩ := ih r.length (by omega) r rfl
      refine ⟨() :: us, ?_⟩
      rw [many0_of_ok eats_identifierRest.suffix hr hlt, bind_of_ok hus, hdrop]
      rfl
    · have hstop : ∀ c l', l = c :: l' → isIdentRest c = false := by
        intro c l' h
        by_contra hc
        exact hstart ⟨c, l', h, by simpa using hc⟩
      have herror : identifierRest l = .error .error := by
        have hs : identifierStart l = .error .error := identifierStart_of_not fun c l' h => by
          have := hstop c l' h
          simp [isIdentRest] at this
          exact this.1
        rw [identifierRest, alt_of_error hs, bind_of_error (tag_eq_error ?_)]
        rintro ⟨r, rfl⟩
        exact absurd (hstop '-' r rfl) (by decide)
      refine ⟨[], ?_⟩
      rw [many0_of_error herror]
      cases l with
      | nil => rfl
      | cons c l' => rw [List.dropWhile_cons_of_neg (by simp [hstop c l' rfl])]

/-- An identifier is taken to its end. -/
theorem parseIdentifier_append {s r : List Char} (hs : IsIdentifier s) (hr : EndsIdent r) :
    parseIdentifier (s ++ r) = .ok (String.ofList s, r) := by
  obtain ⟨a, l, rfl, ha, hl⟩ := id hs
  obtain ⟨r', hr', hlt, hdrop⟩ := identifierStart_of_start (l := l ++ r) ha
  obtain ⟨us, hus⟩ := many0_identifierRest r'
  have hend : r'.dropWhile isIdentRest = r := by
    rw [hdrop, ← List.cons_append]
    exact (takeWhile_append_of hs.rest hr).2
  have hinner : (do identifierStart; let _ ← many0 identifierRest; pure () : Parser Unit) (a :: l ++ r) = .ok ((), r) := by
    rw [List.cons_append, bind_of_ok hr', bind_of_ok hus, hend]
    rfl
  have htaken : recognize (do identifierStart; let _ ← many0 identifierRest; pure () : Parser Unit) (a :: l ++ r) = .ok (a :: l, r) := by
    unfold recognize
    rw [hinner]
    dsimp only
    rw [List.length_append, Nat.add_sub_cancel, List.take_left]
  rw [parseIdentifier, bind_of_ok htaken]
  rfl

/-- Where no identifier starts there is an error. -/
theorem parseIdentifier_of_not {l : List Char} (h : ∀ c l', l = c :: l' → isIdentStart c = false) :
    parseIdentifier l = .error .error := by
  rw [parseIdentifier, bind_of_error (e := .error)]
  unfold recognize
  rw [bind_of_error (identifierStart_of_not h)]

/-- What is taken is an identifier, to its end. -/
theorem parseIdentifier_eq_ok {l r : List Char} {s : String} (h : parseIdentifier l = .ok (s, r)) :
    l = s.toList ++ r ∧ IsIdentifier s.toList ∧ EndsIdent r := by
  cases l with
  | nil =>
    have hstart : ∀ c l', ([] : List Char) = c :: l' → isIdentStart c = false := nofun
    rw [parseIdentifier_of_not hstart] at h
    cases h
  | cons c l =>
    by_cases hc : isIdentStart c = true
    · have hident : IsIdentifier (c :: l.takeWhile isIdentRest) := ⟨c, _, rfl, hc, fun d hd => List.mem_takeWhile_imp hd⟩
      have hparse := parseIdentifier_append hident (endsIdent_dropWhile l)
      rw [List.cons_append, List.takeWhile_append_dropWhile, h] at hparse
      cases hparse
      rw [String.toList_ofList]
      exact ⟨by rw [List.cons_append, List.takeWhile_append_dropWhile], hident, endsIdent_dropWhile l⟩
    · rw [parseIdentifier_of_not fun d l' he => by cases he; simpa using hc] at h
      cases h

theorem yields_parseIdentifier : Yields parseIdentifier fun s => IsIdentifier s.toList := fun _ _ _ h =>
  (parseIdentifier_eq_ok h).2.1

/-- An identifier takes a character. -/
theorem eats_parseIdentifier : Eats parseIdentifier :=
  ((eats_identifierStart.bind fun _ => eats_identifierRest.suffix.many0.bind fun _ => suffix_pure _).recognize).bind fun _ =>
    suffix_pure _

/-! ## Quoted texts -/

/-- A delimited text takes its delimiters. -/
theorem eats_between (c : Char) : Eats (between c) :=
  ((eats_char c).delimited (suffix_takeUntil c) (eats_char c).suffix).bind fun _ => suffix_pure _

/-- A quoted text is taken to the next quote. -/
theorem between_append {c : Char} {s : List Char} (hs : c ∉ s) (r : List Char) :
    between c (c :: (s ++ c :: r)) = .ok (String.ofList s, r) := by
  have hall : ∀ a ∈ s, (a != c) = true := fun a ha => bne_iff_ne.mpr fun he => hs (he ▸ ha)
  have hsplit := takeWhile_append_of (r := c :: r) hall fun a l' he => by
    obtain ⟨rfl, -⟩ := List.cons.inj he
    exact bne_self_eq_false _
  have htake : takeUntil c (s ++ c :: r) = .ok (s, c :: r) := by
    unfold takeUntil
    rw [if_pos (by simp), hsplit.1, hsplit.2]
  have hdelimited : delimited (char c) (takeUntil c) (char c) (c :: (s ++ c :: r)) = .ok (s, r) := by
    rw [delimited, bind_of_ok (char_self ..), bind_of_ok htake, bind_of_ok (char_self ..)]
    rfl
  rw [between, bind_of_ok hdelimited]
  rfl

/-- What starts with another character is not delimited. -/
theorem between_of_ne {a c : Char} (h : a ≠ c) (l : List Char) : between c (a :: l) = .error .error := by
  rw [between, bind_of_error]
  rw [delimited, bind_of_error (char_of_ne h l)]

/-- What is taken is a text without the quote. -/
theorem between_eq_ok {c : Char} {l r : List Char} {s : String} (h : between c l = .ok (s, r)) :
    l = c :: (s.toList ++ c :: r) ∧ c ∉ s.toList := by
  obtain ⟨t, l₁, hdelimited, hs⟩ := bind_eq_ok h
  cases hs
  obtain ⟨_, l₂, hopen, hrest⟩ := bind_eq_ok hdelimited
  obtain ⟨t', l₃, htake, hrest⟩ := bind_eq_ok hrest
  obtain ⟨_, l₄, hclose, hpure⟩ := bind_eq_ok hrest
  cases hpure
  unfold takeUntil at htake
  split at htake
  · cases htake
    have hsplit := List.takeWhile_append_dropWhile (p := (· != c)) (l := l₂)
    rw [char_eq_ok hclose] at hsplit
    rw [String.toList_ofList, char_eq_ok hopen, hsplit]
    refine ⟨rfl, fun hmem => ?_⟩
    simpa using List.mem_takeWhile_imp hmem
  · cases htake

/-- A delimited text has no delimiter in it. -/
theorem yields_between (c : Char) : Yields (between c) fun s => c ∉ s.toList := fun _ _ _ h => (between_eq_ok h).2

end Parser
end WebPipe
