import Mathlib.Algebra.Order.BigOperators.Group.List
import Mathlib.Algebra.Order.Group.Nat
import Mathlib.Data.List.TakeWhile
import WebPipe.Http.Request

/-!
# Form bodies

The parser of form bodies splits at `&` and `=` and decodes nothing, so that it reads back what the serialiser leaves as it is.
-/

namespace WebPipe

/-! ## The serialiser -/

/-- The characters that the serialiser of `application/x-www-form-urlencoded` leaves as they are. -/
def isUnreserved (c : Char) : Bool := Text.isAsciiAlphanumeric c || c = '*' || c = '-' || c = '.' || c = '_'

/-- A hexadecimal digit, in upper case. -/
def upperHexDigit (n : Nat) : Char := if n < 10 then Char.ofNat (48 + n) else Char.ofNat (55 + n)

/-- A byte as it is written with a percent sign. -/
def percentByte (b : UInt8) : List Char := ['%', upperHexDigit (b.toNat / 16), upperHexDigit (b.toNat % 16)]

/-- A character as it is serialised. -/
def formEncodeChar (c : Char) : List Char :=
  if c = ' ' then ['+'] else if isUnreserved c then [c] else (String.utf8EncodeChar c).flatMap percentByte

/-- A key or a value as it is serialised. -/
def formEncode (s : List Char) : List Char := s.flatMap formEncodeChar

/-- A pair as it is serialised. -/
def pairText (p : String × String) : List Char := formEncode p.1.toList ++ '=' :: formEncode p.2.toList

/-- A list of pairs as it is serialised. -/
def formText (pairs : List (String × String)) : List Char := ['&'].intercalate (pairs.map pairText)

example : formText [("a b", "1&2"), ("\u00e9", "x")] = "a+b=1%262&%C3%A9=x".toList := by decide

/-- A character of a serialised text. -/
def isEncoded (c : Char) : Prop := isUnreserved c = true ∨ c = '+' ∨ c = '%'

/-- The hexadecimal digits need no escape. -/
theorem isUnreserved_upperHexDigit {n : Nat} (h : n < 16) : isUnreserved (upperHexDigit n) = true := by
  have hall : ∀ n < 16, isUnreserved (upperHexDigit n) = true := by decide
  exact hall n h

/-- An escaped byte has the characters of an encoded text. -/
theorem percentByte_encoded {b : UInt8} {c : Char} (h : c ∈ percentByte b) : isEncoded c := by
  have hb := b.toNat_lt
  simp only [percentByte, List.mem_cons, List.not_mem_nil, or_false] at h
  rcases h with rfl | rfl | rfl
  · exact Or.inr (Or.inr rfl)
  · exact Or.inl (isUnreserved_upperHexDigit (by omega))
  · exact Or.inl (isUnreserved_upperHexDigit (by omega))

/-- An encoded character has them too. -/
theorem formEncodeChar_encoded {c d : Char} (h : d ∈ formEncodeChar c) : isEncoded d := by
  unfold formEncodeChar at h
  split at h
  · rw [List.mem_singleton] at h
    exact Or.inr (Or.inl h)
  · split at h
    · next hc =>
      rw [List.mem_singleton] at h
      exact Or.inl (h ▸ hc)
    · obtain ⟨b, -, hb⟩ := List.mem_flatMap.mp h
      exact percentByte_encoded hb

/-- An encoded text has them throughout. -/
theorem formEncode_encoded {s : List Char} {d : Char} (h : d ∈ formEncode s) : isEncoded d := by
  obtain ⟨c, -, hc⟩ := List.mem_flatMap.mp h
  exact formEncodeChar_encoded hc

/-- They are ASCII, and separate nothing. -/
theorem isEncoded_ascii {c : Char} (h : isEncoded c) : c.toNat < 128 ∧ c ≠ '&' ∧ c ≠ '=' ∧ c ≠ ' ' := by
  rcases h with h | rfl | rfl
  · refine ⟨?_, ?_, ?_, ?_⟩
    · simp only [isUnreserved, Text.isAsciiAlphanumeric, Text.isDigit, Bool.or_eq_true, Bool.and_eq_true, decide_eq_true_eq] at h
      rcases h with (((h | rfl) | rfl) | rfl) | rfl
      · omega
      all_goals decide
    all_goals
      rintro rfl
      revert h
      decide
  · decide
  · decide

/-- A character that is left as it is. -/
theorem formEncodeChar_of_unreserved {c : Char} (h : isUnreserved c = true) : formEncodeChar c = [c] := by
  have hne : c ≠ ' ' := by
    rintro rfl
    revert h
    decide
  rw [formEncodeChar, if_neg hne, if_pos h]

/-- A character that is no blank and not left as it is gets longer, and a percent sign. -/
theorem formEncodeChar_percent {c : Char} (hblank : c ≠ ' ') (h : isUnreserved c = false) :
    '%' ∈ formEncodeChar c ∧ 3 ≤ (formEncodeChar c).length := by
  rw [formEncodeChar, if_neg hblank, if_neg (by simp [h])]
  obtain ⟨b, bs, hbytes⟩ := List.exists_cons_of_ne_nil (String.utf8EncodeChar_ne_nil (c := c))
  rw [hbytes, List.flatMap_cons]
  refine ⟨List.mem_append_left _ (by simp [percentByte]), ?_⟩
  rw [List.length_append]
  have : (percentByte b).length = 3 := rfl
  omega

/-- A character is encoded in at least one. -/
theorem formEncodeChar_length_pos (c : Char) : 1 ≤ (formEncodeChar c).length := by
  by_cases hblank : c = ' '
  · rw [hblank]
    decide
  · cases h : isUnreserved c with
    | true => simp [formEncodeChar_of_unreserved h]
    | false =>
      have := (formEncodeChar_percent hblank h).2
      omega

/-- A text is no longer than its encoding. -/
theorem length_le_formEncode (s : List Char) : s.length ≤ (formEncode s).length := by
  induction s with
  | nil => exact Nat.le_refl _
  | cons c s ih =>
    have hpos := formEncodeChar_length_pos c
    rw [formEncode, List.flatMap_cons, List.length_append, ← formEncode, List.length_cons]
    omega

/-- A text with a character that is no blank and not left as it is gets longer. -/
theorem length_lt_formEncode {s : List Char} {c : Char} (hc : c ∈ s) (hblank : c ≠ ' ') (h : isUnreserved c = false) :
    s.length < (formEncode s).length := by
  induction s with
  | nil => cases hc
  | cons d s ih =>
    have hpos := formEncodeChar_length_pos d
    rw [formEncode, List.flatMap_cons, List.length_append, ← formEncode, List.length_cons]
    rcases List.mem_cons.mp hc with rfl | hc
    · have := (formEncodeChar_percent hblank h).2
      have := length_le_formEncode s
      omega
    · have := ih hc
      omega

/-- A text is left as it is when every character is. -/
theorem formEncode_of_unreserved {s : List Char} (h : ∀ c ∈ s, isUnreserved c = true) : formEncode s = s := by
  induction s with
  | nil => rfl
  | cons c s ih =>
    rw [formEncode, List.flatMap_cons, formEncodeChar_of_unreserved (h c (by simp)), ← formEncode,
      ih fun d hd => h d (List.mem_cons_of_mem _ hd)]
    rfl

/-- A text that is not left as it is has a plus sign or a percent sign afterwards. -/
theorem exists_sign {s : List Char} (h : ∃ c ∈ s, isUnreserved c = false) :
    ∃ d ∈ formEncode s, d ≠ ' ' ∧ isUnreserved d = false := by
  obtain ⟨c, hc, hres⟩ := h
  by_cases hblank : c = ' '
  · exact ⟨'+', List.mem_flatMap.mpr ⟨c, hc, by simp [formEncodeChar, hblank]⟩, by decide, by decide⟩
  · exact ⟨'%', List.mem_flatMap.mpr ⟨c, hc, (formEncodeChar_percent hblank hres).1⟩, by decide, by decide⟩

/-! ## Pieces of a body -/

/-- A pair as it is serialised, read as text. -/
def encodedPair (p : String × String) : String × String := (String.ofList (formEncode p.1.toList), String.ofList (formEncode p.2.toList))

/-- An encoded text has no separator. -/
theorem not_mem_formEncode {s : List Char} {c : Char} (h : ¬isEncoded c) : c ∉ formEncode s := fun hc => h (formEncode_encoded hc)

/-- A pair is split at its sign of equality. -/
theorem splitPair_encoded (p : String × String) : splitPair (String.ofList (pairText p)) = some (encodedPair p) := by
  have hequals : ¬isEncoded '=' := fun h => (isEncoded_ascii h).2.2.1 rfl
  have hvalue : (formEncode p.2.toList).takeWhile (· != '=') = formEncode p.2.toList := by
    rw [List.takeWhile_eq_self_iff]
    intro c hc
    exact bne_iff_ne.mpr fun he => not_mem_formEncode hequals (he ▸ hc)
  rw [pairText, splitPair_of_mem (not_mem_formEncode hequals), hvalue]
  rfl

/-- The pairs of a serialised list. -/
theorem pairs_formText {pairs : List (String × String)} (hne : pairs ≠ []) :
    (Text.split '&' (String.ofList (formText pairs))).filterMap splitPair = pairs.map encodedPair := by
  have hno : ∀ l ∈ pairs.map pairText, '&' ∉ l := by
    intro l hl
    obtain ⟨p, -, rfl⟩ := List.mem_map.mp hl
    have hamp : ¬isEncoded '&' := fun h => (isEncoded_ascii h).2.1 rfl
    simp [pairText, not_mem_formEncode hamp]
  have hpiece : ∀ p ∈ pairs, (splitPair ∘ String.ofList ∘ pairText) p = (some ∘ encodedPair) p := by
    intro p _
    simp only [Function.comp_apply, splitPair_encoded]
  rw [text_split_toList, String.toList_ofList, formText, List.splitOn_intercalate _ hno (by simpa using hne), List.map_map,
    List.filterMap_map, List.filterMap_congr hpiece, List.filterMap_eq_map]

/-- The text of a pair is ASCII. -/
theorem pairText_ascii (p : String × String) : ∀ c ∈ pairText p, c.toNat < 128 := by
  intro c hc
  rcases List.mem_append.mp hc with hc | hc
  · exact (isEncoded_ascii (formEncode_encoded hc)).1
  · rcases List.mem_cons.mp hc with rfl | hc
    · decide
    · exact (isEncoded_ascii (formEncode_encoded hc)).1

/-- The text of a form is ASCII. -/
theorem formText_ascii {pairs : List (String × String)} : ∀ c ∈ formText pairs, c.toNat < 128 := by
  induction pairs with
  | nil => nofun
  | cons p ps ih =>
    intro c hc
    cases ps with
    | nil =>
      rw [formText, List.map_singleton, List.intercalate_singleton] at hc
      exact pairText_ascii p c hc
    | cons q ps =>
      rw [formText, List.map_cons, List.map_cons, List.intercalate_cons_cons, List.append_assoc] at hc
      rcases List.mem_append.mp hc with hc | hc
      · exact pairText_ascii p c hc
      · rcases List.mem_append.mp hc with hc | hc
        · rw [List.mem_singleton.mp hc]
          decide
        · exact ih c hc

/-- A form with a pair has a text. -/
theorem formText_ne_nil {pairs : List (String × String)} (hne : pairs ≠ []) : formText pairs ≠ [] := by
  intro h
  have hpairs := pairs_formText hne
  rw [h] at hpairs
  cases pairs with
  | nil => exact hne rfl
  | cons p ps =>
    cases ps with
    | nil => exact absurd h (by simp [formText, pairText])
    | cons q ps =>
      rw [formText, List.map_cons, List.map_cons, List.intercalate_cons_cons] at h
      simp at h

section Reading

variable {parseFloat : String → Option FloatText} {fromSlice : List UInt8 → Option Value} {contentType : String}

/-- A serialised list is read as an object with its keys, each with the number or the text that its value is. -/
def FormRead (parseFloat : String → Option FloatText) (fromSlice : List UInt8 → Option Value) (contentType : String)
    (pairs : List (String × String)) : Prop :=
  ∃ members, parseBodyFromContentType parseFloat fromSlice (Text.asciiBytes (formText pairs)) contentType = .object members ∧
    ∀ key, IndexMap.get members key = (IndexMap.get pairs key).map (stringToNumberOrString parseFloat)

/-- What a serialised list is read as. -/
theorem parse_formText (hct : "application/x-www-form-urlencoded".toList <+: contentType.toList) {pairs : List (String × String)}
    (hne : pairs ≠ []) :
    parseBodyFromContentType parseFloat fromSlice (Text.asciiBytes (formText pairs)) contentType =
      stringMapToJsonWithNumberCoercion parseFloat (IndexMap.insertAll [] (pairs.map encodedPair)) := by
  have hjson : ¬"application/json".toList.isPrefixOf contentType.toList = true := by
    intro h
    obtain ⟨t, ht⟩ := hct
    obtain ⟨t', ht'⟩ := List.isPrefixOf_iff_prefix.mp h
    have hchar := congrArg (fun l => l[12]?) (ht'.trans ht.symm)
    revert hchar
    simp
  have hbody : (Text.asciiBytes (formText pairs)).isEmpty = false := by
    cases h : formText pairs with
    | nil => exact absurd h (formText_ne_nil hne)
    | cons c l => rfl
  unfold parseBodyFromContentType
  rw [if_neg (by simp [hbody]), if_neg hjson, if_pos (List.isPrefixOf_iff_prefix.mpr hct)]
  dsimp only
  rw [Text.fromUtf8Lossy_ascii formText_ascii, pairs_formText hne]

/-- The members of the object that a map becomes. -/
theorem get_numberCoercion {map : List (String × String)} (h : IndexMap.Distinct map) :
    ∃ members, stringMapToJsonWithNumberCoercion parseFloat map = .object members ∧
      ∀ key, IndexMap.get members key = (IndexMap.get map key).map (stringToNumberOrString parseFloat) := by
  refine ⟨_, rfl, fun key => ?_⟩
  have hdistinct : IndexMap.Distinct (map.map fun kv => (kv.1, stringToNumberOrString parseFloat kv.2)) := by
    unfold IndexMap.Distinct
    rw [List.map_map]
    exact h
  rw [IndexMap.get_insertAll hdistinct, IndexMap.get_nil, Option.or_none, IndexMap.get_map]

/-- A character of a decimal number. -/
def isNumberChar (c : Char) : Prop := Text.isDigit c = true ∨ c = '+' ∨ c = '-' ∨ c = '.' ∨ c = 'e' ∨ c = 'E'

/-- What is read as a number has the characters of one. -/
theorem isNumberChar_of_parseSigned {s : String} {i : Int} (h : Text.parseSigned 64 s = some i) : ∀ c ∈ s.toList, isNumberChar c := by
  unfold Text.parseSigned at h
  generalize s.toList = l at h
  have hdigits : ∀ digits : List Char, (digits.isEmpty || !digits.all Text.isDigit) = false → ∀ c ∈ digits, isNumberChar c := by
    intro digits hd c hc
    simp only [Bool.or_eq_false_iff, Bool.not_eq_false', List.all_eq_true] at hd
    exact Or.inl (hd.2 c hc)
  split at h
  next negative digits hmatch =>
  split at h
  · cases h
  · next hd =>
    have hall := hdigits digits (by simpa using hd)
    split at hmatch
    · cases hmatch
      intro c hc
      rcases List.mem_cons.mp hc with rfl | hc
      · exact Or.inr (Or.inl rfl)
      · exact hall c hc
    · cases hmatch
      intro c hc
      rcases List.mem_cons.mp hc with rfl | hc
      · exact Or.inr (Or.inr (Or.inl rfl))
      · exact hall c hc
    · cases hmatch
      exact hall

/-- A text with a character of no number stays text. -/
theorem number_of_text (hfloat : ∀ s x, parseFloat s = some x → ∀ c ∈ s.toList, isNumberChar c) {s : String} {c : Char}
    (hc : c ∈ s.toList) (hnot : ¬isNumberChar c) : stringToNumberOrString parseFloat s = .string s := by
  unfold stringToNumberOrString
  cases hi : Text.parseSigned 64 s with
  | some i => exact absurd (isNumberChar_of_parseSigned hi c hc) hnot
  | none =>
    cases hf : parseFloat s with
    | some f => exact absurd (hfloat s f hf c hc) hnot
    | none => rfl

/-- A text that is no number is kept. -/
theorem text_of_number {s t : String} (h : stringToNumberOrString parseFloat s = .string t) : s = t := by
  unfold stringToNumberOrString at h
  split at h
  · cases h
  · split at h <;> cases h
    rfl

/-- A value is read as what it is when the serialiser leaves it as it is. -/
theorem value_unreserved (hfloat : ∀ s x, parseFloat s = some x → ∀ c ∈ s.toList, isNumberChar c) {v : String}
    (h : stringToNumberOrString parseFloat (String.ofList (formEncode v.toList)) = stringToNumberOrString parseFloat v) :
    ∀ c ∈ v.toList, isUnreserved c = true := by
  by_contra hall
  push Not at hall
  obtain ⟨c, hc, hres⟩ := hall
  have hres : isUnreserved c = false := by simpa using hres
  have hsame : formEncode v.toList = v.toList := by
    by_cases hblank : c = ' '
    · -- a value with a blank is no number
      subst hblank
      rw [number_of_text hfloat (s := v) hc (by unfold isNumberChar; decide)] at h
      have htext := congrArg String.toList (text_of_number h)
      rwa [String.toList_ofList] at htext
    · -- a text with a percent sign is no number
      have hpercent : '%' ∈ (String.ofList (formEncode v.toList)).toList := by
        rw [String.toList_ofList]
        exact List.mem_flatMap.mpr ⟨c, hc, (formEncodeChar_percent hblank hres).1⟩
      rw [number_of_text hfloat hpercent (by unfold isNumberChar; decide)] at h
      have htext := congrArg String.toList (text_of_number h.symm)
      rw [String.toList_ofList] at htext
      exact htext.symm
  obtain ⟨d, hd, hdblank, hdres⟩ := exists_sign ⟨c, hc, hres⟩
  have hlength := length_lt_formEncode (hsame ▸ hd) hdblank hdres
  rw [hsame] at hlength
  omega

/-- A pair that needs no escape is its own encoding. -/
theorem encodedPair_of_unreserved {p : String × String} (hkey : ∀ c ∈ p.1.toList, isUnreserved c = true)
    (hvalue : ∀ c ∈ p.2.toList, isUnreserved c = true) : encodedPair p = p := by
  rw [encodedPair, formEncode_of_unreserved hkey, formEncode_of_unreserved hvalue, String.ofList_toList, String.ofList_toList]

/-- When every serialised key is a key, every key is left as it is: another one would have longer and longer keys after it. -/
theorem keys_unreserved {pairs : List (String × String)}
    (h : ∀ p ∈ pairs, String.ofList (formEncode p.1.toList) ∈ pairs.map Prod.fst) :
    ∀ p ∈ pairs, ∀ c ∈ p.1.toList, isUnreserved c = true := by
  by_contra hall
  push Not at hall
  obtain ⟨p, hp, c, hc, hres⟩ := hall
  have hlong : ∀ n, ∃ q ∈ pairs, n ≤ q.1.toList.length ∧ ∃ d ∈ q.1.toList, d ≠ ' ' ∧ isUnreserved d = false := by
    intro n
    induction n with
    | zero =>
      obtain ⟨q, hq, hkey⟩ := List.mem_map.mp (h p hp)
      refine ⟨q, hq, Nat.zero_le _, ?_⟩
      rw [hkey, String.toList_ofList]
      exact exists_sign ⟨c, hc, by simpa using hres⟩
    | succ n ih =>
      obtain ⟨q, hq, hn, d, hd, hblank, hdres⟩ := ih
      obtain ⟨q', hq', hkey⟩ := List.mem_map.mp (h q hq)
      have hlength := length_lt_formEncode hd hblank hdres
      refine ⟨q', hq', ?_, ?_⟩
      · rw [hkey, String.toList_ofList]
        omega
      · rw [hkey, String.toList_ofList]
        exact exists_sign ⟨d, hd, hdres⟩
  obtain ⟨q, hq, hn, -⟩ := hlong ((pairs.map fun p => p.1.toList.length).sum + 1)
  have hle := List.le_sum_of_mem (List.mem_map_of_mem (f := fun p => p.1.toList.length) hq)
  omega

/-- A serialised list is read back exactly when every character of every key and value is one that the serialiser leaves as it is. The
hypothesis on `parseFloat` is the grammar of finite decimal numbers. -/
theorem formRead_iff (hfloat : ∀ s x, parseFloat s = some x → ∀ c ∈ s.toList, isNumberChar c)
    (hct : "application/x-www-form-urlencoded".toList <+: contentType.toList) {pairs : List (String × String)}
    (hne : pairs ≠ []) (hdistinct : IndexMap.Distinct pairs) :
    FormRead parseFloat fromSlice contentType pairs ↔
      ∀ p ∈ pairs, (∀ c ∈ p.1.toList, isUnreserved c = true) ∧ ∀ c ∈ p.2.toList, isUnreserved c = true := by
  have hnil : IndexMap.Distinct ([] : List (String × String)) := List.nodup_nil
  obtain ⟨members, hobject, hget⟩ := @get_numberCoercion parseFloat _ (hnil.insertAll (pairs.map encodedPair))
  rw [← @parse_formText parseFloat fromSlice _ hct _ hne] at hobject
  constructor
  · rintro ⟨members', hobject', hread⟩
    rw [hobject] at hobject'
    cases hobject'
    have hkeys : ∀ p ∈ pairs, String.ofList (formEncode p.1.toList) ∈ pairs.map Prod.fst := by
      intro p hp
      have hmem : String.ofList (formEncode p.1.toList) ∈ (pairs.map encodedPair).map Prod.fst := by
        rw [List.map_map]
        exact List.mem_map_of_mem (f := Prod.fst ∘ encodedPair) hp
      by_contra hnot
      have hnone := hread (String.ofList (formEncode p.1.toList))
      rw [IndexMap.get_eq_none_iff.mpr hnot, hget, Option.map_none, Option.map_eq_none_iff] at hnone
      exact IndexMap.get_insertAll_ne_none hmem hnone
    have hunreserved := keys_unreserved hkeys
    have hsame : (pairs.map encodedPair).map Prod.fst = pairs.map Prod.fst := by
      rw [List.map_map]
      refine List.map_congr_left fun p hp => ?_
      rw [Function.comp_apply, encodedPair, formEncode_of_unreserved (hunreserved p hp), String.ofList_toList]
    have hencoded : IndexMap.Distinct (pairs.map encodedPair) := by rw [IndexMap.Distinct, hsame]; exact hdistinct
    intro p hp
    refine ⟨hunreserved p hp, value_unreserved hfloat ?_⟩
    have hvalue := hread p.1
    have hp' : (p.1, String.ofList (formEncode p.2.toList)) ∈ pairs.map encodedPair := by
      refine List.mem_map.mpr ⟨p, hp, ?_⟩
      rw [encodedPair, formEncode_of_unreserved (hunreserved p hp), String.ofList_toList]
    rw [hget, IndexMap.get_insertAll hencoded, IndexMap.get_nil, Option.or_none, (IndexMap.get_eq_some_iff hencoded).mpr hp',
      (IndexMap.get_eq_some_iff hdistinct).mpr hp, Option.map_some, Option.map_some] at hvalue
    exact Option.some.inj hvalue
  · intro h
    have hid : pairs.map encodedPair = pairs := by
      rw [List.map_congr_left (g := id), List.map_id]
      exact fun p hp => encodedPair_of_unreserved (h p hp).1 (h p hp).2
    refine ⟨members, hobject, fun key => ?_⟩
    rw [hget, hid, IndexMap.get_insertAll hdistinct, IndexMap.get_nil, Option.or_none]

/-- `a=1&b=two` is read back. -/
theorem plain_form_read :
    FormRead (fun _ => none) (fun _ => none) "application/x-www-form-urlencoded" [("a", "1"), ("b", "two")] :=
  (formRead_iff (fun _ _ h => by cases h) (List.prefix_refl _) (by decide)
    (by unfold IndexMap.Distinct; decide)).mpr (List.forall_mem_cons.mpr ⟨⟨Text.forall_mem_of_all (by decide), Text.forall_mem_of_all (by decide)⟩,
      List.forall_mem_singleton.mpr ⟨Text.forall_mem_of_all (by decide), Text.forall_mem_of_all (by decide)⟩⟩)

/-- `name=Ada Lovelace` keeps its plus sign. -/
theorem blank_not_decoded :
    formText [("name", "Ada Lovelace")] = "name=Ada+Lovelace".toList ∧
      ¬FormRead (fun _ => none) (fun _ => none) "application/x-www-form-urlencoded" [("name", "Ada Lovelace")] := by
  refine ⟨by decide, ?_⟩
  rintro ⟨members, hobject, hget⟩
  rw [parse_formText (List.prefix_refl _) (by decide)] at hobject
  have hname := congrArg (fun value => value.bind Value.asStr) (hget "name")
  cases hobject
  revert hname
  decide +kernel

end Reading

end WebPipe
