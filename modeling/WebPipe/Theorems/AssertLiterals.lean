import Mathlib.Data.List.Forall2
import WebPipe.Middleware.Assert

/-!
# Literals of a schema

When the JSON text of a scalar, and a union of such texts, is a schema that accepts exactly the values equal to it. A number is
read as a float, so no integer is equal to its own literal; the reader of numbers knows no exponents, and the reader of strings
only some of the escapes that JSON texts are written with.
-/

namespace WebPipe

/-! ## Scalars -/

section Scalars

variable (parseF64 : String → Option FloatText)

/-- The text that is written for a float: a sign, digits, digits behind a dot, an exponent; and it reads back as the float. -/
structure FloatText.Written (x : FloatText) : Prop where
  reads : parseF64 x.text = some x
  shape : ∃ sign whole fraction exponent, x.text.toList = sign ++ whole ++ fraction ++ exponent ∧
    (sign = [] ∨ sign = ['-']) ∧ whole ≠ [] ∧ (∀ c ∈ whole, Text.isDigit c = true) ∧
    (fraction = [] ∨ ∃ digits, fraction = '.' :: digits ∧ ∀ c ∈ digits, Text.isDigit c = true) ∧
    (exponent = [] ∨ ∃ digits, exponent = 'e' :: digits)

/-- A JSON scalar. -/
def Value.Scalar : Value → Prop
  | .null | .bool _ | .string _ | .number (.int _) => True
  | .number (.float x) => x.Written parseF64
  | .array _ | .object _ => False

/-- A character that a schema string can hold: JSON writes every other one with an escape that the reader does not know. -/
def plainInSchema (c : Char) : Bool := decide (32 ≤ c.toNat) || c = '\n' || c = '\r' || c = '\t'

/-- A scalar whose text is read as itself: no integer, no float with an exponent, no string with an unknown escape. -/
def Value.readsBack : Value → Bool
  | .null | .bool _ => true
  | .string s => s.toList.all plainInSchema
  | .number (.int _) => false
  | .number (.float x) => decide ('e' ∉ x.text.toList)
  | .array _ | .object _ => false

/-- The schema that the text of a scalar is read as. -/
def readLiteral : Value → Option AssertSchema
  | .null => some .null
  | .bool b => some (.literal (.bool b))
  | .string s => if s.toList.all plainInSchema then some (.literal (.string s)) else none
  | .number (.int n) => (parseF64 (toString n)).map fun x => .literal (.number (.float x))
  | .number (.float x) => if 'e' ∈ x.text.toList then none else (parseF64 x.text).map fun x => .literal (.number (.float x))
  | .array _ | .object _ => none

end Scalars

/-! ## Words in front of the rest -/

section Words

variable {l rest : List Char} {c : Char}

/-- A text that no literal goes on with. -/
def EndsLiteral (rest : List Char) : Prop := ∀ c, rest.head? = some c → c = '|' ∨ Text.isWhitespace c = true

/-- What ends a literal goes on neither as a number nor as a word. -/
theorem not_word_of_ends (h : c = '|' ∨ Text.isWhitespace c = true) :
    Text.isDigit c = false ∧ c ≠ '.' ∧ isIdentContinue c = false := by
  rcases h with rfl | h
  · decide
  · have hrange := h
    simp only [Text.isWhitespace, Bool.or_eq_true, Bool.and_eq_true, decide_eq_true_eq] at hrange
    have hne : ∀ d : Char, Text.isWhitespace d = false → c ≠ d := by
      rintro d hd rfl
      rw [h] at hd
      cases hd
    have hdigit : Text.isDigit c = false := by
      simp only [Text.isDigit, Bool.and_eq_false_iff, decide_eq_false_iff_not]
      omega
    refine ⟨hdigit, hne '.' (by decide), ?_⟩
    simp only [isIdentContinue, Text.isAsciiAlphanumeric, hdigit, hne '_' (by decide), hne '-' (by decide), Bool.false_or,
      Bool.or_false, Bool.or_eq_false_iff, Bool.and_eq_false_iff, decide_eq_false_iff_not, decide_false]
    omega

/-- Blanks before a text are skipped with those it starts with. -/
theorem skipWs_blanks {blanks : List Char} (h : ∀ c ∈ blanks, Text.isWhitespace c = true) (l : List Char) :
    skipWs (blanks ++ l) = skipWs l := List.dropWhile_append_of_pos h

theorem skipWs_cons (h : Text.isWhitespace c = false) : skipWs (c :: l) = c :: l := by simp [skipWs, h]

/-- Characters of a kind in front of one that is not. -/
theorem takeWhile_word {p : Char → Bool} (hl : ∀ c ∈ l, p c = true) (hrest : ∀ c, rest.head? = some c → p c = false) :
    (l ++ rest).takeWhile p = l ∧ (l ++ rest).dropWhile p = rest := by
  rw [List.takeWhile_append_of_pos hl, List.dropWhile_append_of_pos hl]
  cases rest with
  | nil => simp
  | cons d rest => simp [hrest d rfl]

variable {parseF64 : String → Option FloatText} {call : SchemaRule → List Char → Parsed} {blanks : List Char}

/-- What starts a number starts nothing else. -/
theorem not_white_of_number (h : c = '-' ∨ Text.isDigit c = true) :
    Text.isWhitespace c = false ∧ c ≠ '\x7b' ∧ c ≠ '[' ∧ c ≠ '"' := by
  rcases h with rfl | h
  · decide
  · have hne : ∀ d : Char, Text.isDigit d = false → c ≠ d := by
      rintro d hd rfl
      rw [h] at hd
      cases hd
    exact ⟨Text.isWhitespace_of_isDigit h, hne '\x7b' (by decide), hne '[' (by decide), hne '"' (by decide)⟩

/-- A primary that starts as a number is one. -/
theorem parsePrimary_number (hblanks : ∀ c ∈ blanks, Text.isWhitespace c = true) (h : c = '-' ∨ Text.isDigit c = true) :
    parsePrimary parseF64 call (blanks ++ c :: l) = parseNumberLiteral parseF64 (c :: l) := by
  obtain ⟨hwhite, hbrace, hbracket, hquote⟩ := not_white_of_number h
  simp only [parsePrimary, skipWs_blanks hblanks, skipWs_cons hwhite, if_neg hbrace, if_neg hbracket, if_neg hquote, if_pos h]

/-- A primary that starts with a quotation mark is a string. -/
theorem parsePrimary_string (hblanks : ∀ c ∈ blanks, Text.isWhitespace c = true) :
    parsePrimary parseF64 call (blanks ++ '"' :: l) = (parseStringChars [] l).map fun p => (.literal (.string p.1), p.2) := by
  have hquote : skipWs ('"' :: l) = '"' :: l := skipWs_cons (by decide)
  have hstring : parseString ('"' :: l) = parseStringChars [] l := by
    unfold parseString expect
    rw [hquote]
    rfl
  simp only [parsePrimary, skipWs_blanks hblanks, hquote, if_neg (show '"' ≠ '\x7b' by decide),
    if_neg (show '"' ≠ '[' by decide), if_true, hstring]

/-- A word in front of the end of a literal. -/
theorem parsePrimary_word (hblanks : ∀ c ∈ blanks, Text.isWhitespace c = true) {word : String} {schema : AssertSchema}
    (hrest : EndsLiteral rest) (hword : word.toList = c :: l) (hstart : isIdentStart c = true)
    (hcontinue : ∀ d ∈ l, isIdentContinue d = true)
    (hname : ∀ text rest, parseIdentifier text = (word, rest) → parseNamedTypeOrLiteral text = .ok (schema, rest)) :
    parsePrimary parseF64 call (blanks ++ (word.toList ++ rest)) = .ok (schema, rest) := by
  have hne : ∀ d : Char, isIdentStart d = false → c ≠ d := by
    rintro d hd rfl
    rw [hstart] at hd
    cases hd
  have hwhite : Text.isWhitespace c = false := by
    simp only [isIdentStart, Bool.or_eq_true, Bool.and_eq_true, decide_eq_true_eq] at hstart
    rcases hstart with hstart | rfl
    · simp only [Text.isWhitespace, Bool.or_eq_false_iff, Bool.and_eq_false_iff, decide_eq_false_iff_not]
      omega
    · decide
  have hdigit : ¬(c = '-' ∨ Text.isDigit c = true) := by
    rintro (rfl | hdigit)
    · exact hne '-' (by decide) rfl
    · simp only [Text.isDigit, Bool.and_eq_true, decide_eq_true_eq] at hdigit
      simp only [isIdentStart, Bool.or_eq_true, Bool.and_eq_true, decide_eq_true_eq] at hstart
      rcases hstart with hstart | rfl
      · omega
      · exact absurd hdigit (by decide)
  obtain ⟨htake, hdrop⟩ := takeWhile_word hcontinue fun d hd => (not_word_of_ends (hrest d hd)).2.2
  have htext : String.ofList (c :: l) = word := by rw [← hword, String.ofList_toList]
  have hident : parseIdentifier (c :: l ++ rest) = (word, rest) := by
    simp only [List.cons_append, parseIdentifier, htake, hdrop, htext]
  rw [← hname _ rest hident, hword]
  simp only [parsePrimary, skipWs_blanks hblanks, List.cons_append, skipWs_cons hwhite, if_neg (hne '\x7b' (by decide)),
    if_neg (hne '[' (by decide)), if_neg (hne '"' (by decide)), if_neg hdigit, if_pos hstart]

/-- The word `null` is the null literal where it ends. -/
theorem parsePrimary_null (hblanks : ∀ c ∈ blanks, Text.isWhitespace c = true) (hrest : EndsLiteral rest) :
    parsePrimary parseF64 call (blanks ++ ("null".toList ++ rest)) = .ok (.null, rest) := by
  refine parsePrimary_word (c := 'n') (l := ['u', 'l', 'l']) hblanks hrest rfl (by decide) (Text.forall_mem_of_all (by decide)) ?_
  intro text rest h
  rw [parseNamedTypeOrLiteral, h]
  rfl

/-- The words `true` and `false` are literals where they end. -/
theorem parsePrimary_bool (hblanks : ∀ c ∈ blanks, Text.isWhitespace c = true) (hrest : EndsLiteral rest) (b : Bool) :
    parsePrimary parseF64 call (blanks ++ ((if b then "true" else "false").toList ++ rest)) = .ok (.literal (.bool b), rest) := by
  cases b with
  | true =>
    refine parsePrimary_word (c := 't') (l := ['r', 'u', 'e']) hblanks hrest rfl (by decide) (Text.forall_mem_of_all (by decide)) ?_
    intro text rest h
    rw [parseNamedTypeOrLiteral, h]
    rfl
  | false =>
    refine parsePrimary_word (c := 'f') (l := ['a', 'l', 's', 'e']) hblanks hrest rfl (by decide) (Text.forall_mem_of_all (by decide)) ?_
    intro text rest h
    rw [parseNamedTypeOrLiteral, h]
    rfl

end Words

/-! ## Strings -/

section Strings

variable {rest : List Char}

/-- The text of an escaped character. -/
def escaped (s : List Char) : List Char := s.flatMap fun c => (Value.escapeChar c).toList

/-- The characters of a quoted string. -/
theorem toList_quote (s : String) : (Value.quote s).toList = '"' :: (escaped s.toList ++ ['"']) := by
  simp [Value.quote, escaped, List.flatMap_map]

/-- A quotation mark ends the string. -/
theorem parseStringChars_quote (out : List Char) : parseStringChars out ('"' :: rest) = .ok (String.ofList out, rest) := by
  rw [parseStringChars.eq_def]
  rfl

/-- After a backslash the parser takes one of the escapes it knows. -/
theorem parseStringChars_escape (out : List Char) (e : Char) : parseStringChars out ('\\' :: e :: rest) =
    match unescape e with
    | some c => parseStringChars (out ++ [c]) rest
    | none => reject s!"unsupported string escape '\\{e}'" := by
  rw [parseStringChars.eq_def]
  rfl

/-- Any other character is taken as it stands. -/
theorem parseStringChars_other {c : Char} (hquote : c ≠ '"') (hescape : c ≠ '\\') (out : List Char) :
    parseStringChars out (c :: rest) = parseStringChars (out ++ [c]) rest := by
  rw [parseStringChars.eq_def]
  simp only [if_neg hquote, if_neg hescape]

theorem eq_of_toNat {c d : Char} (h : c.toNat = d.toNat) : c = d := Char.toNat_inj.mp h

/-- A character that a schema string can hold is read back. -/
theorem parseStringChars_plain {c : Char} (h : plainInSchema c = true) (out : List Char) :
    parseStringChars out ((Value.escapeChar c).toList ++ rest) = parseStringChars (out ++ [c]) rest := by
  have hcode : 32 ≤ c.toNat ∨ c.toNat = 10 ∨ c.toNat = 13 ∨ c.toNat = 9 := by
    simp only [plainInSchema, Bool.or_eq_true, decide_eq_true_eq] at h
    rcases h with ((h | rfl) | rfl) | rfl
    · exact Or.inl h
    · exact Or.inr (Or.inl rfl)
    · exact Or.inr (Or.inr (Or.inl rfl))
    · exact Or.inr (Or.inr (Or.inr rfl))
  unfold Value.escapeChar
  split
  · rename_i hc
    subst hc
    exact parseStringChars_escape out '"'
  · rename_i hquote
    split
    · rename_i hc
      subst hc
      exact parseStringChars_escape out '\\'
    · rename_i hescape
      split
      · omega
      · split
        · rename_i hc
          obtain rfl : c = '\t' := eq_of_toNat hc
          exact parseStringChars_escape out 't'
        · split
          · rename_i hc
            obtain rfl : c = '\n' := eq_of_toNat hc
            exact parseStringChars_escape out 'n'
          · split
            · omega
            · split
              · rename_i hc
                obtain rfl : c = '\r' := eq_of_toNat hc
                exact parseStringChars_escape out 'r'
              · rw [if_neg (by omega), String.toList_singleton, List.singleton_append]
                exact parseStringChars_other hquote hescape out

/-- Any other character is rejected. -/
theorem parseStringChars_not_plain {c : Char} (h : plainInSchema c = false) (out : List Char) :
    ∃ text, parseStringChars out ((Value.escapeChar c).toList ++ rest) = reject text := by
  simp only [plainInSchema, Bool.or_eq_false_iff, decide_eq_false_iff_not] at h
  obtain ⟨⟨⟨hcode, hline⟩, hreturn⟩, htab⟩ := h
  have hne : ∀ d : Char, 32 ≤ d.toNat → c ≠ d := by
    rintro d hd rfl
    omega
  unfold Value.escapeChar
  rw [if_neg (hne '"' (by decide)), if_neg (hne '\\' (by decide))]
  split
  · exact ⟨_, parseStringChars_escape out 'b'⟩
  · have htab' : ¬c.toNat = 9 := fun hc => htab (eq_of_toNat hc)
    have hline' : ¬c.toNat = 10 := fun hc => hline (eq_of_toNat hc)
    have hreturn' : ¬c.toNat = 13 := fun hc => hreturn (eq_of_toNat hc)
    rw [if_neg htab', if_neg hline']
    split
    · exact ⟨_, parseStringChars_escape out 'f'⟩
    · rw [if_pos (by omega), String.toList_append, List.append_assoc]
      exact ⟨_, parseStringChars_escape out 'u'⟩

/-- A string without the escapes that the parser does not know is read back. -/
theorem parseStringChars_escaped {s : List Char} (h : s.all plainInSchema = true) (out : List Char) :
    parseStringChars out (escaped s ++ '"' :: rest) = .ok (String.ofList (out ++ s), rest) := by
  induction s generalizing out with
  | nil => simp [escaped, parseStringChars_quote]
  | cons c s ih =>
    rw [List.all_cons, Bool.and_eq_true] at h
    rw [escaped, List.flatMap_cons, List.append_assoc, parseStringChars_plain h.1, ← escaped, ih h.2, List.append_assoc,
      List.singleton_append]

/-- A string with one of the others is refused. -/
theorem parseStringChars_rejects {s : List Char} (h : s.all plainInSchema = false) (out : List Char) :
    ∃ text, parseStringChars out (escaped s ++ '"' :: rest) = reject text := by
  induction s generalizing out with
  | nil => cases h
  | cons c s ih =>
    rw [escaped, List.flatMap_cons, List.append_assoc]
    cases hc : plainInSchema c with
    | true =>
      rw [List.all_cons, hc, Bool.true_and] at h
      rw [parseStringChars_plain hc]
      exact ih h (out ++ [c])
    | false => exact parseStringChars_not_plain hc out

end Strings

/-! ## Numbers -/

section Numbers

variable {sign whole fraction rest : List Char}

/-- The parts of a number without an exponent. -/
structure Mantissa (sign whole fraction : List Char) : Prop where
  sign : sign = [] ∨ sign = ['-']
  nonempty : whole ≠ []
  whole : ∀ c ∈ whole, Text.isDigit c = true
  fraction : fraction = [] ∨ ∃ digits, fraction = '.' :: digits ∧ ∀ c ∈ digits, Text.isDigit c = true

/-- The reader of numbers takes a number without an exponent, and no more. -/
theorem Mantissa.span (h : Mantissa sign whole fraction)
    (hrest : ∀ c, rest.head? = some c → Text.isDigit c = false ∧ c ≠ '.') :
    spanNumber (sign ++ whole ++ fraction ++ rest) = (sign ++ whole ++ fraction, rest) := by
  have hfraction : spanFraction (fraction ++ rest) = (fraction, rest) := by
    rcases h.fraction with rfl | ⟨digits, rfl, hdigits⟩
    · cases rest with
      | nil => rfl
      | cons c rest => simp [spanFraction, (hrest c rfl).2]
    · obtain ⟨htake, hdrop⟩ := takeWhile_word hdigits fun c hc => (hrest c hc).1
      simp [spanFraction, htake, hdrop]
  have hstop : ∀ c, (fraction ++ rest).head? = some c → Text.isDigit c = false := by
    intro c hc
    rcases h.fraction with rfl | ⟨digits, rfl, -⟩
    · exact (hrest c hc).1
    · obtain rfl : '.' = c := by simpa using hc
      decide
  have hdecimal : spanDecimal (whole ++ (fraction ++ rest)) = (whole ++ fraction, rest) := by
    obtain ⟨htake, hdrop⟩ := takeWhile_word h.whole hstop
    simp only [spanDecimal, htake, hdrop, hfraction]
  rcases h.sign with rfl | rfl
  · cases hwhole : whole with
    | nil => exact absurd hwhole h.nonempty
    | cons c digits =>
      have hc : c ≠ '-' := by
        rintro rfl
        exact absurd (h.whole '-' (by simp [hwhole])) (by decide)
      rw [hwhole] at hdecimal
      simp only [List.nil_append, List.cons_append, List.append_assoc, spanNumber, if_neg hc] at hdecimal ⊢
      exact hdecimal
  · simp only [List.append_assoc, List.cons_append, List.nil_append, spanNumber, if_true, hdecimal]

/-- A number begins with its sign or its first digit. -/
theorem Mantissa.head (h : Mantissa sign whole fraction) :
    ∃ c l, sign ++ whole ++ fraction = c :: l ∧ (c = '-' ∨ Text.isDigit c = true) := by
  rcases h.sign with rfl | rfl
  · cases hwhole : whole with
    | nil => exact absurd hwhole h.nonempty
    | cons c digits => exact ⟨c, digits ++ fraction, by simp, Or.inr (h.whole c (by simp [hwhole]))⟩
  · exact ⟨'-', whole ++ fraction, by simp, Or.inl rfl⟩

variable {parseF64 : String → Option FloatText} {call : SchemaRule → List Char → Parsed} {blanks : List Char}

/-- A primary that is written as a mantissa is the number `f64` reads there. -/
theorem Mantissa.parsePrimary (h : Mantissa sign whole fraction) (hblanks : ∀ c ∈ blanks, Text.isWhitespace c = true)
    (hrest : ∀ c, rest.head? = some c → Text.isDigit c = false ∧ c ≠ '.') :
    parsePrimary parseF64 call (blanks ++ (sign ++ whole ++ fraction ++ rest)) =
      match parseF64 (String.ofList (sign ++ whole ++ fraction)) with
      | some x => .ok (.literal (.number (.float x)), rest)
      | none => reject s!"invalid number literal '{String.ofList (sign ++ whole ++ fraction)}'" := by
  obtain ⟨c, l, hl, hc⟩ := h.head
  have hspan := h.span hrest
  rw [hl, List.cons_append] at hspan ⊢
  rw [parsePrimary_number hblanks hc]
  cases hread : parseF64 (String.ofList (c :: l)) <;> simp only [parseNumberLiteral, hspan, hread]

/-- The digits of a natural number are a mantissa. -/
theorem repr_mantissa (m : ℕ) : Mantissa [] m.repr.toList [] where
  sign := Or.inl rfl
  nonempty := by
    rw [Nat.toList_repr]
    exact Nat.toDigits_ne_nil
  whole := fun _ hc => Text.isDigit_of_mem_repr hc
  fraction := Or.inl rfl

/-- The text of an integer. -/
theorem toString_int_mantissa (n : ℤ) : ∃ sign whole, (toString n).toList = sign ++ whole ++ [] ∧ Mantissa sign whole [] := by
  cases n with
  | ofNat m => exact ⟨[], m.repr.toList, by simp [ToString.toString, Int.repr], repr_mantissa m⟩
  | negSucc m =>
    refine ⟨['-'], (m + 1).repr.toList, by simp [ToString.toString, Int.repr], ?_⟩
    exact { repr_mantissa (m + 1) with sign := Or.inr rfl }

end Numbers

/-! ## One literal -/

section Literal

variable {parseF64 : String → Option FloatText} {call : SchemaRule → List Char → Parsed} {blanks rest : List Char} {v : Value}

/-- What ends a literal is no part of a number. -/
theorem ends_not_number (h : EndsLiteral rest) : ∀ c, rest.head? = some c → Text.isDigit c = false ∧ c ≠ '.' :=
  fun c hc => ⟨(not_word_of_ends (h c hc)).1, (not_word_of_ends (h c hc)).2.1⟩

/-- A float whose text has no exponent is its mantissa. -/
theorem FloatText.Written.mantissa {x : FloatText} (h : x.Written parseF64) : ∃ sign whole fraction exponent,
    x.text.toList = sign ++ whole ++ fraction ++ exponent ∧ Mantissa sign whole fraction ∧
      ('e' ∉ x.text.toList ∧ exponent = [] ∨ 'e' ∈ x.text.toList ∧ ∃ digits, exponent = 'e' :: digits) := by
  obtain ⟨sign, whole, fraction, exponent, htext, hsign, hnonempty, hwhole, hfraction, hexponent⟩ := h.shape
  refine ⟨sign, whole, fraction, exponent, htext, ⟨hsign, hnonempty, hwhole, hfraction⟩, ?_⟩
  rcases hexponent with rfl | ⟨digits, rfl⟩
  · refine Or.inl ⟨?_, rfl⟩
    rw [htext]
    intro hmem
    simp only [List.mem_append, List.not_mem_nil, or_false] at hmem
    rcases hmem with (hmem | hmem) | hmem
    · rcases hsign with rfl | rfl
      · cases hmem
      · exact absurd hmem (by decide)
    · exact absurd (hwhole 'e' hmem) (by decide)
    · rcases hfraction with rfl | ⟨digits, rfl, hdigits⟩
      · cases hmem
      · rcases List.mem_cons.mp hmem with hdot | hmem
        · exact absurd hdot (by decide)
        · exact absurd (hdigits 'e' hmem) (by decide)
  · exact Or.inr ⟨by rw [htext]; simp, digits, rfl⟩

/-- The text of a scalar is read as its schema. -/
theorem parsePrimary_reads (hv : v.Scalar parseF64) (hblanks : ∀ c ∈ blanks, Text.isWhitespace c = true) (hrest : EndsLiteral rest)
    {schema : AssertSchema} (h : readLiteral parseF64 v = some schema) :
    parsePrimary parseF64 call (blanks ++ (v.toJson.toList ++ rest)) = .ok (schema, rest) := by
  cases v with
  | null =>
    cases h
    exact parsePrimary_null hblanks hrest
  | bool b =>
    cases h
    exact parsePrimary_bool hblanks hrest b
  | string s =>
    rw [readLiteral] at h
    split at h
    · rename_i hplain
      cases h
      have htext : (Value.toJson (.string s)).toList ++ rest = '"' :: (escaped s.toList ++ '"' :: rest) := by
        simp [Value.toJson, toList_quote]
      rw [htext, parsePrimary_string hblanks, parseStringChars_escaped hplain, List.nil_append, String.ofList_toList]
      rfl
    · cases h
  | number n =>
    cases n with
    | int n =>
      obtain ⟨x, hx, rfl⟩ := Option.map_eq_some_iff.mp h
      obtain ⟨sign, whole, htext, hmantissa⟩ := toString_int_mantissa n
      have hjson : (Value.toJson (.number (.int n))).toList = sign ++ whole ++ [] := htext
      rw [hjson, hmantissa.parsePrimary hblanks (ends_not_number hrest), ← htext, String.ofList_toList, hx]
    | float x =>
      rw [readLiteral] at h
      split at h
      · cases h
      · rename_i hplain
        obtain ⟨y, hy, rfl⟩ := Option.map_eq_some_iff.mp h
        obtain ⟨sign, whole, fraction, exponent, htext, hmantissa, hexponent⟩ := FloatText.Written.mantissa hv
        rcases hexponent with ⟨-, rfl⟩ | ⟨hmem, -⟩
        · rw [List.append_nil] at htext
          have hjson : (Value.toJson (.number (.float x))).toList = sign ++ whole ++ fraction := htext
          rw [hjson, hmantissa.parsePrimary hblanks (ends_not_number hrest), ← htext, String.ofList_toList, hy]
        · exact absurd hmem hplain
  | array items => cases h
  | object members => cases h

/-- The text of any other scalar is rejected, or its exponent is left. -/
theorem parsePrimary_stops (hv : v.Scalar parseF64) (hblanks : ∀ c ∈ blanks, Text.isWhitespace c = true) (hrest : EndsLiteral rest)
    (h : readLiteral parseF64 v = none) :
    (∃ text, parsePrimary parseF64 call (blanks ++ (v.toJson.toList ++ rest)) = reject text) ∨
      ∃ schema l, parsePrimary parseF64 call (blanks ++ (v.toJson.toList ++ rest)) = .ok (schema, 'e' :: l) := by
  cases v with
  | null => cases h
  | bool b => cases h
  | string s =>
    rw [readLiteral] at h
    split at h
    · cases h
    · rename_i hplain
      have htext : (Value.toJson (.string s)).toList ++ rest = '"' :: (escaped s.toList ++ '"' :: rest) := by
        simp [Value.toJson, toList_quote]
      obtain ⟨text, hreject⟩ := @parseStringChars_rejects rest s.toList (by simpa using hplain) []
      rw [htext, parsePrimary_string hblanks, hreject]
      exact Or.inl ⟨text, rfl⟩
  | number n =>
    cases n with
    | int n =>
      have hnone := Option.map_eq_none_iff.mp h
      obtain ⟨sign, whole, htext, hmantissa⟩ := toString_int_mantissa n
      have hjson : (Value.toJson (.number (.int n))).toList = sign ++ whole ++ [] := htext
      rw [hjson, hmantissa.parsePrimary hblanks (ends_not_number hrest), ← htext, String.ofList_toList, hnone]
      exact Or.inl ⟨_, rfl⟩
    | float x =>
      rw [readLiteral] at h
      obtain ⟨sign, whole, fraction, exponent, htext, hmantissa, hexponent⟩ := FloatText.Written.mantissa hv
      split at h
      · rename_i hmem
        rcases hexponent with ⟨hplain, -⟩ | ⟨-, digits, rfl⟩
        · exact absurd hmem hplain
        · have hjson : (Value.toJson (.number (.float x))).toList ++ rest = sign ++ whole ++ fraction ++ ('e' :: digits ++ rest) := by
            rw [← List.append_assoc, ← htext]
            rfl
          have hstop : ∀ c, ('e' :: digits ++ rest).head? = some c → Text.isDigit c = false ∧ c ≠ '.' := by
            rintro c ⟨⟩
            decide
          rw [hjson, hmantissa.parsePrimary hblanks hstop]
          cases parseF64 (String.ofList (sign ++ whole ++ fraction)) with
          | some y => exact Or.inr ⟨_, digits ++ rest, rfl⟩
          | none => exact Or.inl ⟨_, rfl⟩
      · rename_i hplain
        exact absurd (Option.map_eq_none_iff.mp h) (by rw [hv.reads]; simp)
  | array items => exact hv.elim
  | object members => exact hv.elim

end Literal

/-! ## Unions -/

/-- A scalar as it is written in a schema, between white space. -/
structure WrittenLiteral where
  value : Value
  before : List Char
  after : List Char
  before_blank : ∀ c ∈ before, Text.isWhitespace c = true
  after_blank : ∀ c ∈ after, Text.isWhitespace c = true

/-- The text of a literal. -/
def WrittenLiteral.text (l : WrittenLiteral) : List Char := l.before ++ (l.value.toJson.toList ++ l.after)

/-- The further options of a union. -/
def optionsText (rest : List WrittenLiteral) : List Char := rest.flatMap fun l => '|' :: l.text

/-- The text of a union of literals. -/
def unionText (first : WrittenLiteral) (rest : List WrittenLiteral) : String := String.ofList (first.text ++ optionsText rest)

section Unions

variable {parseF64 : String → Option FloatText} {rest : List WrittenLiteral} {after : List Char}

/-- The literals are read as schemas. -/
def ReadAs (parseF64 : String → Option FloatText) (literals : List WrittenLiteral) (schemas : List AssertSchema) : Prop :=
  List.Forall₂ (fun (l : WrittenLiteral) schema => readLiteral parseF64 l.value = some schema) literals schemas

/-- Literals that are read one by one are read together. -/
theorem exists_readAs {literals : List WrittenLiteral} (h : ∀ l ∈ literals, ∃ schema, readLiteral parseF64 l.value = some schema) :
    ∃ schemas, ReadAs parseF64 literals schemas := by
  induction literals with
  | nil => exact ⟨[], List.Forall₂.nil⟩
  | cons l literals ih =>
    obtain ⟨schema, hschema⟩ := h l List.mem_cons_self
    obtain ⟨schemas, hschemas⟩ := ih fun l' hl' => h l' (List.mem_cons_of_mem l hl')
    exact ⟨schema :: schemas, List.Forall₂.cons hschema hschemas⟩

/-- The schemas are those of the literals. -/
theorem ReadAs.mem_iff {literals : List WrittenLiteral} {schemas : List AssertSchema} (h : ReadAs parseF64 literals schemas)
    {schema : AssertSchema} : schema ∈ schemas ↔ ∃ l ∈ literals, readLiteral parseF64 l.value = some schema := by
  induction h with
  | nil => simp
  | @cons l schema' literals schemas hl _ ih =>
    simp only [List.mem_cons, exists_eq_or_imp, ih, hl, Option.some.injEq]
    rw [eq_comm]

/-- Blanks, and then another option or the end, end a literal. -/
theorem endsLiteral_options (hafter : ∀ c ∈ after, Text.isWhitespace c = true) (rest : List WrittenLiteral) :
    EndsLiteral (after ++ optionsText rest) := by
  intro c hc
  cases after with
  | nil =>
    cases rest with
    | nil => cases hc
    | cons l rest => exact Or.inl (by simpa [optionsText] using hc.symm)
  | cons d after =>
    obtain rfl : d = c := by simpa using hc
    exact Or.inr (hafter d List.mem_cons_self)

/-- Every option has at least one character. -/
theorem length_optionsText (rest : List WrittenLiteral) : rest.length ≤ (optionsText rest).length := by
  induction rest with
  | nil => exact Nat.zero_le _
  | cons l rest ih =>
    simp only [optionsText, List.flatMap_cons, List.length_append, List.length_cons] at ih ⊢
    omega

theorem runRule_primary (n : ℕ) (l : List Char) :
    runRule parseF64 (n + 1) .primary l = parsePrimary parseF64 (runRule parseF64 n) l := rfl

theorem runRule_options (n : ℕ) (options : List AssertSchema) (l : List Char) :
    runRule parseF64 (n + 1) (.options options) l = parseOptions (runRule parseF64 n) options l := rfl

/-- One more option in front of the loop. -/
theorem runRule_option (hafter : ∀ c ∈ after, Text.isWhitespace c = true) (n : ℕ) (options : List AssertSchema) (l : WrittenLiteral)
    (rest : List WrittenLiteral) : runRule parseF64 (n + 1) (.options options) (after ++ optionsText (l :: rest)) =
      (do
        let (option, left) ← runRule parseF64 n .primary (l.before ++ (l.value.toJson.toList ++ (l.after ++ optionsText rest)))
        runRule parseF64 n (.options (options ++ [option])) left) := by
  have htext : optionsText (l :: rest) = '|' :: (l.before ++ (l.value.toJson.toList ++ (l.after ++ optionsText rest))) := by
    simp [optionsText, WrittenLiteral.text]
  rw [runRule_options, parseOptions, skipWs_blanks hafter, htext, skipWs_cons (by decide), eat, if_pos rfl]

/-- Where every literal is read, the loop ends with their schemas. -/
theorem options_read (hscalar : ∀ l ∈ rest, l.value.Scalar parseF64) {schemas : List AssertSchema}
    (hread : ReadAs parseF64 rest schemas) (hafter : ∀ c ∈ after, Text.isWhitespace c = true) {n : ℕ} (hn : rest.length < n)
    (options : List AssertSchema) :
    runRule parseF64 n (.options options) (after ++ optionsText rest) = .ok (unionOf (options ++ schemas), []) := by
  induction rest generalizing schemas after n options with
  | nil =>
    obtain rfl := List.forall₂_nil_left_iff.mp hread
    obtain ⟨n, rfl⟩ := Nat.exists_eq_succ_of_ne_zero (Nat.ne_of_gt hn)
    have hskip : skipWs (after ++ optionsText []) = [] := skipWs_blanks hafter []
    rw [runRule_options, parseOptions, hskip, List.append_nil]
    rfl
  | cons l rest ih =>
    obtain ⟨schema, schemas, hl, hrest, rfl⟩ := List.forall₂_cons_left_iff.mp hread
    obtain ⟨n, rfl⟩ := Nat.exists_eq_succ_of_ne_zero (Nat.ne_of_gt (Nat.zero_lt_of_lt hn))
    rw [List.length_cons, Nat.succ_lt_succ_iff] at hn
    obtain ⟨m, rfl⟩ := Nat.exists_eq_succ_of_ne_zero (Nat.ne_of_gt (Nat.zero_lt_of_lt hn))
    rw [runRule_option hafter, runRule_primary,
      parsePrimary_reads (hscalar l List.mem_cons_self) l.before_blank (endsLiteral_options l.after_blank rest) hl]
    have hloop := ih (fun l' hl' => hscalar l' (List.mem_cons_of_mem l hl')) hrest l.after_blank hn (options ++ [schema])
    rw [List.append_assoc, List.singleton_append] at hloop
    exact hloop

/-- A result that does not end the text. -/
def Unfinished (result : Parsed) : Prop := ∀ schema left, result = .ok (schema, left) → skipWs left ≠ []

/-- A rejection stays one whatever follows. -/
theorem unfinished_reject (text : String) : Unfinished (reject text) := by
  rintro schema left ⟨⟩

/-- An exponent ends the loop. -/
theorem options_exponent (n : ℕ) (options : List AssertSchema) (l : List Char) :
    Unfinished (runRule parseF64 n (.options options) ('e' :: l)) := by
  rintro schema left h
  cases n with
  | zero => cases h
  | succ n =>
    have hskip : skipWs ('e' :: l) = 'e' :: l := skipWs_cons (by decide)
    rw [runRule_options, parseOptions, hskip, eat, if_neg (by decide)] at h
    cases h
    rw [hskip]
    exact List.cons_ne_nil _ _

/-- Where a literal is not read, the loop does not end the text. -/
theorem options_stop (hscalar : ∀ l ∈ rest, l.value.Scalar parseF64) (hstop : ∃ l ∈ rest, readLiteral parseF64 l.value = none)
    (hafter : ∀ c ∈ after, Text.isWhitespace c = true) {n : ℕ} (hn : rest.length < n) (options : List AssertSchema) :
    Unfinished (runRule parseF64 n (.options options) (after ++ optionsText rest)) := by
  induction rest generalizing after n options with
  | nil =>
    obtain ⟨l, hl, -⟩ := hstop
    cases hl
  | cons l rest ih =>
    obtain ⟨n, rfl⟩ := Nat.exists_eq_succ_of_ne_zero (Nat.ne_of_gt (Nat.zero_lt_of_lt hn))
    rw [List.length_cons, Nat.succ_lt_succ_iff] at hn
    obtain ⟨m, rfl⟩ := Nat.exists_eq_succ_of_ne_zero (Nat.ne_of_gt (Nat.zero_lt_of_lt hn))
    have hends := endsLiteral_options l.after_blank rest
    have hl := hscalar l List.mem_cons_self
    rw [runRule_option hafter, runRule_primary]
    cases hread : readLiteral parseF64 l.value with
    | none =>
      rcases @parsePrimary_stops parseF64 (runRule parseF64 m) _ _ _ hl l.before_blank hends hread with ⟨text, htext⟩ | ⟨schema, left, hleft⟩
      · rw [htext]
        exact unfinished_reject text
      · rw [hleft]
        exact @options_exponent parseF64 (m + 1) (options ++ [schema]) left
    | some schema =>
      obtain ⟨l', hl', hnone⟩ := hstop
      have hmem : l' ∈ rest := by
        rcases List.mem_cons.mp hl' with rfl | hmem
        · rw [hread] at hnone
          cases hnone
        · exact hmem
      rw [parsePrimary_reads hl l.before_blank hends hread]
      exact ih (fun l' hl' => hscalar l' (List.mem_cons_of_mem l hl')) ⟨l', hmem, hnone⟩ l.after_blank hn (options ++ [schema])

/-! ## The schema -/

variable {first : WrittenLiteral}

/-- A union is read as its first literal and then the options. -/
theorem runRule_union (n : ℕ) (first : WrittenLiteral) (rest : List WrittenLiteral) :
    runRule parseF64 (n + 1) .union (unionText first rest).toList =
      (do
        let (option, left) ← runRule parseF64 n .primary (first.before ++ (first.value.toJson.toList ++ (first.after ++ optionsText rest)))
        runRule parseF64 n (.options [option]) left) := by
  have htext : (unionText first rest).toList =
      first.before ++ (first.value.toJson.toList ++ (first.after ++ optionsText rest)) := by
    simp [unionText, WrittenLiteral.text]
  rw [htext]
  rfl

/-- The fuel of a schema suffices for all options of the union. -/
theorem cost_unionText (first : WrittenLiteral) (rest : List WrittenLiteral) :
    ∃ n, SchemaRule.union.cost (unionText first rest).toList = n + 1 ∧ rest.length < n + 1 := by
  refine ⟨3 * (unionText first rest).toList.length, rfl, ?_⟩
  have hlength := length_optionsText rest
  have htotal : (optionsText rest).length ≤ (unionText first rest).toList.length := by simp [unionText]
  omega

/-- Where every literal is read, the schema is the union of what they are read as. -/
theorem parseSchema_reads (hscalar : ∀ l ∈ first :: rest, l.value.Scalar parseF64) {schemas : List AssertSchema}
    (hread : ReadAs parseF64 (first :: rest) schemas) : parseSchema parseF64 (unionText first rest) = .ok (unionOf schemas) := by
  obtain ⟨schema, schemas, hfirst, hrest, rfl⟩ := List.forall₂_cons_left_iff.mp hread
  obtain ⟨n, hn, hlength⟩ := cost_unionText first rest
  have hoptions := options_read (fun l hl => hscalar l (List.mem_cons_of_mem first hl)) hrest first.after_blank hlength [schema]
  rw [parseSchema, hn, runRule_union, runRule_primary,
    parsePrimary_reads (hscalar first List.mem_cons_self) first.before_blank (endsLiteral_options first.after_blank rest) hfirst]
  simp only [bind, Except.bind, hoptions]
  rfl

/-- Where a literal is not read, the text is no schema. -/
theorem parseSchema_stops (hscalar : ∀ l ∈ first :: rest, l.value.Scalar parseF64)
    (hstop : ∃ l ∈ first :: rest, readLiteral parseF64 l.value = none) (schema : AssertSchema) :
    parseSchema parseF64 (unionText first rest) ≠ .ok schema := by
  obtain ⟨n, hn, hlength⟩ := cost_unionText first rest
  have hends := endsLiteral_options first.after_blank rest
  have hfirst := hscalar first List.mem_cons_self
  have hunfinished : Unfinished (runRule parseF64 (n + 1 + 1) .union (unionText first rest).toList) := by
    rw [runRule_union, runRule_primary]
    cases hread : readLiteral parseF64 first.value with
    | none =>
      rcases @parsePrimary_stops parseF64 (runRule parseF64 n) _ _ _ hfirst first.before_blank hends hread with
        ⟨text, htext⟩ | ⟨schema, left, hleft⟩
      · rw [htext]
        exact unfinished_reject text
      · rw [hleft]
        exact @options_exponent parseF64 (n + 1) [schema] left
    | some schema =>
      obtain ⟨l, hl, hnone⟩ := hstop
      have hmem : l ∈ rest := by
        rcases List.mem_cons.mp hl with rfl | hmem
        · rw [hread] at hnone
          cases hnone
        · exact hmem
      rw [parsePrimary_reads hfirst first.before_blank hends hread]
      exact options_stop (fun l hl => hscalar l (List.mem_cons_of_mem first hl)) ⟨l, hmem, hnone⟩ first.after_blank hlength [schema]
  rw [parseSchema, hn]
  cases hrun : runRule parseF64 (n + 1 + 1) .union (unionText first rest).toList with
  | error failure => rintro ⟨⟩
  | ok p =>
    have hleft := hunfinished p.1 p.2 hrun
    simp only [bind, Except.bind]
    split
    · rename_i hempty
      exact absurd hempty hleft
    · rintro ⟨⟩

end Unions

/-! ## What a schema accepts -/

section Accepts

variable {parseF64 : String → Option FloatText} {debugText : String → String}

/-- A required type passes exactly when the value has it. -/
theorem requireType_eq_ok {ok : Bool} {path expected : String} {value : Value} :
    requireType ok path expected value = .ok () ↔ ok = true := by
  cases ok <;> simp [requireType]

/-- A literal passes exactly the values that are the same. -/
theorem validateValue_literal {value expected : Value} {path : String} :
    validateValue debugText value (.literal expected) path = .ok () ↔ value.same expected = true := by
  rw [validateValue]
  split <;> simp_all

/-- A union accepts what one of its options accepts. -/
theorem validateOptions_eq_ok {value : Value} {options : List AssertSchema} {path : String} {messages : List String} :
    validateOptions debugText value options path messages = .ok () ↔
      ∃ option ∈ options, validateValue debugText value option path = .ok () := by
  induction options generalizing messages with
  | nil => simp [validateOptions]
  | cons option options ih =>
    rw [validateOptions]
    cases h : validateValue debugText value option path with
    | ok u => simp [h]
    | error issue => simp [h, ih]

/-- A union passes exactly the values that one of its options passes. -/
theorem validateValue_unionOf {value : Value} {schemas : List AssertSchema} {path : String} :
    validateValue debugText value (unionOf schemas) path = .ok () ↔
      ∃ schema ∈ schemas, validateValue debugText value schema path = .ok () := by
  unfold unionOf
  split
  · simp
  · rw [validateValue]
    exact validateOptions_eq_ok

/-- The schema of a literal that is read as itself accepts what is equal to it. -/
theorem validateValue_readLiteral {v : Value} (hv : v.Scalar parseF64) (hback : v.readsBack = true) :
    ∃ schema, readLiteral parseF64 v = some schema ∧
      ∀ value path, validateValue debugText value schema path = .ok () ↔ value.same v = true := by
  cases v with
  | null =>
    refine ⟨.null, rfl, ?_⟩
    intro value path
    rw [validateValue, requireType_eq_ok]
    cases value <;> exact Iff.rfl
  | bool b => exact ⟨_, rfl, fun _ _ => validateValue_literal⟩
  | string s =>
    have hplain : s.toList.all plainInSchema = true := hback
    exact ⟨.literal (.string s), by rw [readLiteral, if_pos hplain], fun _ _ => validateValue_literal⟩
  | number n =>
    cases n with
    | int n => cases hback
    | float x =>
      have hplain : 'e' ∉ x.text.toList := by simpa [Value.readsBack] using hback
      refine ⟨.literal (.number (.float x)), ?_, fun _ _ => validateValue_literal⟩
      rw [readLiteral, if_neg hplain, hv.reads]
      rfl
  | array items => cases hback
  | object members => cases hback

/-- No literal accepts an integer. -/
theorem validateValue_int {v : Value} {schema : AssertSchema} (h : readLiteral parseF64 v = some schema) (n : ℤ) (path : String) :
    validateValue debugText (.number (.int n)) schema path ≠ .ok () := by
  have hliteral : ∀ expected, Value.same (.number (.int n)) expected = false →
      validateValue debugText (.number (.int n)) (.literal expected) path ≠ .ok () := by
    intro expected hsame hok
    rw [validateValue_literal, hsame] at hok
    cases hok
  cases v with
  | null =>
    cases h
    intro hok
    rw [validateValue, requireType_eq_ok] at hok
    cases hok
  | bool b =>
    cases h
    exact hliteral _ rfl
  | string s =>
    rw [readLiteral] at h
    split at h
    · cases h
      exact hliteral _ rfl
    · cases h
  | number m =>
    cases m with
    | int m =>
      obtain ⟨x, -, rfl⟩ := Option.map_eq_some_iff.mp h
      exact hliteral _ rfl
    | float x =>
      rw [readLiteral] at h
      split at h
      · cases h
      · obtain ⟨y, -, rfl⟩ := Option.map_eq_some_iff.mp h
        exact hliteral _ rfl
  | array items => cases h
  | object members => cases h

end Accepts

/-! ## The law -/

/-- The text of a union of literals is a schema, and it accepts exactly the values equal to one of them. -/
def MeanThemselves (parseF64 : String → Option FloatText) (debugText : String → String) (first : WrittenLiteral)
    (rest : List WrittenLiteral) : Prop :=
  ∃ schema, parseSchema parseF64 (unionText first rest) = .ok schema ∧
    ∀ value path, validateValue debugText value schema path = .ok () ↔ ∃ l ∈ first :: rest, value.same l.value = true

/-- Literals mean themselves exactly when none is an integer, a float with an exponent or a string with an escape that the reader
does not know. -/
theorem assert_literals_iff (parseF64 : String → Option FloatText) (debugText : String → String) (first : WrittenLiteral)
    (rest : List WrittenLiteral) (hscalar : ∀ l ∈ first :: rest, l.value.Scalar parseF64) :
    MeanThemselves parseF64 debugText first rest ↔ ∀ l ∈ first :: rest, l.value.readsBack = true := by
  constructor
  · rintro ⟨schema, hparse, haccepts⟩
    have hread : ∀ l ∈ first :: rest, ∃ schema, readLiteral parseF64 l.value = some schema := by
      intro l hl
      cases hnone : readLiteral parseF64 l.value with
      | none => exact absurd hparse (parseSchema_stops hscalar ⟨l, hl, hnone⟩ schema)
      | some schema => exact ⟨schema, rfl⟩
    obtain ⟨schemas, hschemas⟩ := exists_readAs hread
    obtain rfl : unionOf schemas = schema := by
      have hsame := (parseSchema_reads hscalar hschemas).symm.trans hparse
      injection hsame
    intro l hl
    obtain ⟨schema, hschema⟩ := hread l hl
    cases hvalue : l.value with
    | number n =>
      cases n with
      | int n =>
        -- no literal accepts an integer, the one that is written as it included
        obtain ⟨schema', hmem, hok⟩ := validateValue_unionOf.mp ((haccepts (.number (.int n)) "$").mpr ⟨l, hl, by
          rw [hvalue, Value.same]
          exact Number.same_refl _⟩)
        obtain ⟨l', -, hl'⟩ := hschemas.mem_iff.mp hmem
        exact absurd hok (validateValue_int hl' n "$")
      | float x =>
        rw [hvalue, readLiteral] at hschema
        split at hschema
        · cases hschema
        · rename_i hplain
          exact decide_eq_true hplain
    | string s =>
      rw [hvalue, readLiteral] at hschema
      split at hschema
      · rename_i hplain
        exact hplain
      · cases hschema
    | null => rfl
    | bool b => rfl
    | array items =>
      rw [hvalue] at hschema
      cases hschema
    | object members =>
      rw [hvalue] at hschema
      cases hschema
  · intro hback
    have hread : ∀ l ∈ first :: rest, ∃ schema, readLiteral parseF64 l.value = some schema := by
      intro l hl
      obtain ⟨schema, hschema, -⟩ := @validateValue_readLiteral parseF64 debugText l.value (hscalar l hl) (hback l hl)
      exact ⟨schema, hschema⟩
    obtain ⟨schemas, hschemas⟩ := exists_readAs hread
    refine ⟨unionOf schemas, parseSchema_reads hscalar hschemas, ?_⟩
    intro value path
    rw [validateValue_unionOf]
    constructor
    · rintro ⟨schema, hmem, hok⟩
      obtain ⟨l, hl, hschema⟩ := hschemas.mem_iff.mp hmem
      obtain ⟨schema', hschema', haccepts⟩ := @validateValue_readLiteral parseF64 debugText l.value (hscalar l hl) (hback l hl)
      rw [hschema] at hschema'
      rw [Option.some.inj hschema'] at hok
      exact ⟨l, hl, (haccepts value path).mp hok⟩
    · rintro ⟨l, hl, hsame⟩
      obtain ⟨schema, hschema, haccepts⟩ := @validateValue_readLiteral parseF64 debugText l.value (hscalar l hl) (hback l hl)
      exact ⟨schema, hschemas.mem_iff.mpr ⟨l, hl, hschema⟩, (haccepts value path).mpr hsame⟩

/-- A reader of the texts `1` and `1.5`. -/
def readOne (text : String) : Option FloatText :=
  if text = "1" then some { text := "1.0", nonempty := by decide }
  else if text = "1.5" then some { text := "1.5", nonempty := by decide }
  else none

/-- A literal without white space around it. -/
def bare (v : Value) : WrittenLiteral where
  value := v
  before := []
  after := []
  before_blank := by simp
  after_blank := by simp

/-- `"ready" | 1.5 | null` accepts the three values. -/
theorem ready_or_more : MeanThemselves readOne Value.quote (bare (.string "ready"))
    [bare (.number (.float { text := "1.5", nonempty := by decide })), bare .null] := by
  refine (assert_literals_iff readOne Value.quote (bare (.string "ready"))
    [bare (.number (.float { text := "1.5", nonempty := by decide })), bare .null] ?_).mpr ?_
  · intro l hl
    simp only [List.mem_cons, List.not_mem_nil, or_false] at hl
    rcases hl with rfl | rfl | rfl
    · trivial
    · refine ⟨by decide, [], ['1'], ['.', '5'], [], by decide, Or.inl rfl, by decide, ?_, Or.inr ⟨['5'], rfl, ?_⟩, Or.inl rfl⟩
      · exact Text.forall_mem_of_all (by decide)
      · exact Text.forall_mem_of_all (by decide)
    · trivial
  · intro l hl
    simp only [List.mem_cons, List.not_mem_nil, or_false] at hl
    rcases hl with rfl | rfl | rfl
    · decide
    · decide
    · rfl

/-- The schema `1` does not accept the number 1. -/
theorem one_is_not_one : ¬MeanThemselves readOne Value.quote (bare (.number (.int 1))) [] := by
  rintro ⟨schema, hparse, haccepts⟩
  have hread : ReadAs readOne [bare (.number (.int 1))] [.literal (.number (.float { text := "1.0", nonempty := by decide }))] :=
    List.Forall₂.cons rfl List.Forall₂.nil
  have hscalar : ∀ l ∈ [bare (.number (.int 1))], l.value.Scalar readOne := by
    intro l hl
    rw [List.mem_singleton.mp hl]
    trivial
  have hone := (haccepts (.number (.int 1)) "$").mpr ⟨_, List.mem_cons_self, rfl⟩
  rw [parseSchema_reads hscalar hread] at hparse
  cases hparse
  exact validateValue_int (hread.mem_iff.mp List.mem_cons_self).choose_spec.2 1 "$" hone

end WebPipe
