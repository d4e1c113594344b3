import WebPipe.Lemmas.RuleLines

/-!
# Written rules

Rules as they are written, with what may stand between them, and what is read of a list of them.
-/

namespace WebPipe

open Text

/-! ## Written rules -/

/-- A type as it is written. -/
inductive RuleType where
  | string
  | bounded (min max : ℕ) (hmin : min < 2 ^ 64) (hmax : max < 2 ^ 64)
  | email
  | bool
  | boolean
  | number

namespace RuleType

def text : RuleType → List Char
  | string => "string".toList
  | bounded min max _ _ => "string".toList ++ '(' :: (min.repr.toList ++ "..".toList ++ max.repr.toList ++ [')'])
  | email => "email".toList
  | bool => "bool".toList
  | boolean => "boolean".toList
  | number => "number".toList

theorem text_bounded {min max : ℕ} (hmin : min < 2 ^ 64) (hmax : max < 2 ^ 64) : (bounded min max hmin hmax).text =
    "string".toList ++ '(' :: (min.repr.toList ++ "..".toList ++ max.repr.toList ++ [')']) := rfl

def kind : RuleType → RuleKind
  | string | bounded _ _ _ _ => .string
  | email => .email
  | bool | boolean => .boolean
  | number => .number

def bounds : RuleType → Option ℕ × Option ℕ
  | bounded min max _ _ => (some min, some max)
  | _ => (none, none)

end RuleType

/-- A rule as it is written: a field, which is trimmed, and a type. -/
structure WrittenRule where
  field : List Char
  type : RuleType
  trimmed : trimChars field = field
  plain : ∀ c ∈ field, c ≠ ':' ∧ c ≠ ',' ∧ c ≠ '\n'

namespace WrittenRule

def text (w : WrittenRule) : List Char := w.field ++ ':' :: ' ' :: w.type.text

/-- What is meant. -/
def rule (w : WrittenRule) : Rule :=
  { field := String.ofList w.field, kind := w.type.kind, min := w.type.bounds.1, max := w.type.bounds.2 }

end WrittenRule

/-- What stands between two rules: white space with a comma or a line break in it. -/
structure Separator where
  before : List Char
  comma : Bool
  after : List Char
  blankBefore : ∀ c ∈ before, isWhitespace c = true
  blankAfter : ∀ c ∈ after, isWhitespace c = true
  separates : comma = true ∨ '\n' ∈ before ++ after

namespace Separator

def text (s : Separator) : List Char := s.before ++ (if s.comma then [','] else []) ++ s.after

/-- A line break after the comma, if there is one. -/
def Breaks (s : Separator) : Prop := s.comma = true → '\n' ∈ s.after

end Separator

/-- Rules after a first one, and white space after the last. -/
def tailText : List (Separator × WrittenRule) → List Char → List Char
  | [], post => post
  | (s, w) :: rest, post => s.text ++ (w.text ++ tailText rest post)

/-! ## Types -/

/-- White space and commas. -/
def Filler (l : List Char) : Prop := ∀ c ∈ l, isWhitespace c = true ∨ c = ','

/-- Between rules there is nothing but blanks and commas. -/
theorem Filler.not_mem {l : List Char} (h : Filler l) {c : Char} (hc : isWhitespace c = false) (hcomma : c ≠ ',') : c ∉ l := by
  intro hmem
  rcases h c hmem with hblank | rfl
  · rw [hc] at hblank
    cases hblank
  · exact hcomma rfl

theorem Filler.of_prefix {l a : List Char} (h : Filler l) (ha : a <+: l) : Filler a := fun c hc => h c (ha.subset hc)

theorem filler_of_blanks {l : List Char} (h : ∀ c ∈ l, isWhitespace c = true) : Filler l := fun c hc => Or.inl (h c hc)

theorem isWhitespace_of_isDigit {c : Char} (h : isDigit c = true) : isWhitespace c = false := by
  simp only [isDigit, Bool.and_eq_true, decide_eq_true_eq] at h
  simp only [isWhitespace, Bool.or_eq_false_iff, Bool.and_eq_false_iff, decide_eq_false_iff_not]
  omega

/-- A number is trimmed. -/
theorem trimChars_repr (n : ℕ) : trimChars n.repr.toList = n.repr.toList := by
  refine Solid.trimChars_eq ⟨?_, ?_⟩
  · cases h : n.repr.toList with
    | nil => exact absurd (Nat.toList_repr ▸ h) Nat.toDigits_ne_nil
    | cons c l => exact ⟨c, rfl, isWhitespace_of_isDigit (isDigit_of_mem_repr (h ▸ List.mem_cons_self ..))⟩
  · cases h : n.repr.toList.getLast? with
    | none => exact absurd (Nat.toList_repr ▸ List.getLast?_eq_none_iff.mp h) Nat.toDigits_ne_nil
    | some c => exact ⟨c, rfl, isWhitespace_of_isDigit (isDigit_of_mem_repr (List.mem_of_getLast? h))⟩

/-- A number of 64 bits is read back. -/
theorem parseUsize_repr {n : ℕ} (h : n < 2 ^ 64) : parseUsize n.repr.toList = some n := by
  rw [parseUsize, trimChars_repr, String.ofList_toList, parseUnsigned_repr h]

/-- A range is read as it is written. -/
theorem parseRange_repr {min max : ℕ} (hmin : min < 2 ^ 64) (hmax : max < 2 ^ 64) :
    parseRange (min.repr.toList ++ "..".toList ++ max.repr.toList) = (some min, some max) := by
  have hdot : isDigit '.' = false := by decide
  have hdots : "..".toList.length = 2 := rfl
  obtain ⟨n, hn⟩ : ∃ n, (min.repr.toList ++ "..".toList ++ max.repr.toList).length = n + 2 := by
    refine ⟨min.repr.toList.length + max.repr.toList.length, ?_⟩
    rw [List.length_append, List.length_append, hdots]
    omega
  have hsplit : splitText "..".toList (min.repr.toList ++ "..".toList ++ max.repr.toList) = [min.repr.toList, max.repr.toList] := by
    have hfirst : splitOnceChars "..".toList (min.repr.toList ++ "..".toList ++ max.repr.toList) =
        some (min.repr.toList, max.repr.toList) := @splitOnceChars_append '.' ['.'] _ (not_mem_repr hdot) _
    have hlast : splitOnceChars "..".toList max.repr.toList = none :=
      splitOnceChars_of_not_mem (List.mem_cons_self ..) (not_mem_repr hdot)
    rw [splitText, hn, splitTextLoop, hfirst]
    dsimp only
    rw [splitTextLoop, hlast]
  rw [parseRange, hsplit]
  dsimp only
  rw [parseUsize_repr hmin, parseUsize_repr hmax]

/-- What starts with `string` is a rule for texts, with or without bounds. -/
theorem parseRhs_string (field : String) {rhs : List Char} (h : "string".toList <+: rhs) : parseRhs field rhs =
    (parseBounds rhs).map fun bounds => some { field, kind := .string, min := bounds.1, max := bounds.2 } :=
  if_pos (List.isPrefixOf_iff_prefix.mpr h)

/-- A type with filler after it is read as the rule it stands for. -/
theorem parseRhs_type (field : String) (t : RuleType) {a : List Char} (ha : Filler a) :
    parseRhs field (t.text ++ a) = some (some { field, kind := t.kind, min := t.bounds.1, max := t.bounds.2 }) := by
  cases t with
  | string =>
    have hopen : find '(' (RuleType.string.text ++ a) = none := by
      refine if_neg fun hmem => ?_
      rcases List.mem_append.mp hmem with hmem | hmem
      · exact absurd hmem (by decide)
      · exact ha.not_mem (by decide) (by decide) hmem
    rw [parseRhs_string field (show "string".toList <+: RuleType.string.text ++ a from List.prefix_append _ _), parseBounds, hopen]
    rfl
  | bounded min max hmin hmax =>
    obtain ⟨range, hrange⟩ : ∃ range, range = min.repr.toList ++ "..".toList ++ max.repr.toList := ⟨_, rfl⟩
    have htext : (RuleType.bounded min max hmin hmax).text ++ a = "string".toList ++ '(' :: (range ++ ')' :: a) := by
      rw [RuleType.text_bounded, ← hrange, List.append_assoc, List.cons_append, List.append_assoc]
      rfl
    have hopen : find '(' ("string".toList ++ '(' :: (range ++ ')' :: a)) = some 6 := find_append (by decide) _
    have hclose : rfind ')' ("string".toList ++ '(' :: (range ++ ')' :: a)) = some (utf8Len ("string(".toList ++ range)) := by
      have hlast := @rfind_append ')' ("string(".toList ++ range) a (ha.not_mem (by decide) (by decide))
      rwa [List.append_assoc] at hlast
    have hinside : slice 7 (utf8Len ("string(".toList ++ range)) ("string".toList ++ '(' :: (range ++ ')' :: a)) = some range :=
      slice_eq_some_iff.mpr ⟨"string(".toList, ')' :: a, by rw [List.append_assoc]; rfl, by decide, rfl⟩
    rw [htext, parseRhs_string field (List.prefix_append _ _), parseBounds, hopen, hclose]
    dsimp only
    rw [hinside, hrange, Option.map_some, parseRange_repr hmin hmax]
    rfl
  | email => rfl
  | bool =>
    have hbool : "bool".toList.isPrefixOf ("bool".toList ++ a) = true := List.isPrefixOf_iff_prefix.mpr (List.prefix_append _ _)
    have hfalse : "string".toList.isPrefixOf ("bool".toList ++ a) = false ∧ "email".toList.isPrefixOf ("bool".toList ++ a) = false := ⟨rfl, rfl⟩
    have hread : parseRhs field ("bool".toList ++ a) = some (some { field, kind := .boolean, min := none, max := none }) := by
      rw [parseRhs, hfalse.1, hfalse.2, hbool, Bool.or_true]
      rfl
    exact hread
  | boolean => rfl
  | number => rfl

namespace RuleType

/-- A type ends in a letter or a bracket. -/
theorem last (t : RuleType) : ∃ front c, t.text = front ++ [c] ∧ isWhitespace c = false ∧ c ≠ ',' ∧ c ≠ '\x7d' := by
  cases t with
  | string => exact ⟨"strin".toList, 'g', rfl, by decide, by decide, by decide⟩
  | bounded min max hmin hmax =>
    refine ⟨"string".toList ++ '(' :: (min.repr.toList ++ "..".toList ++ max.repr.toList), ')', ?_, by decide, by decide, by decide⟩
    rw [text_bounded, List.append_assoc _ ('(' :: _), List.cons_append]
  | email => exact ⟨"emai".toList, 'l', rfl, by decide, by decide, by decide⟩
  | bool => exact ⟨"boo".toList, 'l', rfl, by decide, by decide, by decide⟩
  | boolean => exact ⟨"boolea".toList, 'n', rfl, by decide, by decide, by decide⟩
  | number => exact ⟨"numbe".toList, 'r', rfl, by decide, by decide, by decide⟩

theorem solid (t : RuleType) : Solid t.text := by
  refine ⟨?_, ?_⟩
  · cases t with
    | string => exact ⟨'s', rfl, by decide⟩
    | bounded min max hmin hmax => exact ⟨'s', rfl, by decide⟩
    | email => exact ⟨'e', rfl, by decide⟩
    | bool => exact ⟨'b', rfl, by decide⟩
    | boolean => exact ⟨'b', rfl, by decide⟩
    | number => exact ⟨'n', rfl, by decide⟩
  · obtain ⟨front, c, htext, hc, -, -⟩ := t.last
    exact ⟨c, by rw [htext, List.getLast?_concat], hc⟩

/-- A type has neither a colon nor a line break. -/
theorem not_mem (t : RuleType) {c : Char} (hc : c = ':' ∨ c = '\n') : c ∉ t.text := by
  have hdigit : isDigit c = false := by rcases hc with rfl | rfl <;> decide
  cases t with
  | bounded min max hmin hmax =>
    intro hmem
    rw [text_bounded] at hmem
    simp only [List.mem_append, List.mem_cons, List.not_mem_nil, or_false] at hmem
    rcases hmem with hmem | rfl | ((hmem | hmem) | hmem) | rfl
    · rcases hc with rfl | rfl <;> exact absurd hmem (by decide)
    · rcases hc with hc | hc <;> cases hc
    · exact not_mem_repr hdigit hmem
    · rcases hc with rfl | rfl <;> exact absurd hmem (by decide)
    · exact not_mem_repr hdigit hmem
    · rcases hc with hc | hc <;> cases hc
  | string | email | bool | boolean | number => rcases hc with rfl | rfl <;> decide

end RuleType

namespace WrittenRule

variable (w : WrittenRule)

/-- The name of a field has no colon. -/
theorem field_no_colon : ':' ∉ w.field := fun h => (w.plain _ h).1 rfl

/-- A rule stands on one line. -/
theorem no_break : '\n' ∉ w.text := by
  intro hmem
  rw [text, List.mem_append, List.mem_cons, List.mem_cons] at hmem
  rcases hmem with hmem | hmem | hmem | hmem
  · exact (w.plain _ hmem).2.2 rfl
  · cases hmem
  · cases hmem
  · exact w.type.not_mem (Or.inr rfl) hmem

theorem solid : Solid w.text := by
  refine ⟨?_, ?_⟩
  · cases hfield : w.field with
    | nil => exact ⟨':', by rw [text, hfield]; rfl, by decide⟩
    | cons c l =>
      refine ⟨c, by rw [text, hfield]; rfl, ?_⟩
      have hfront := (trimChars_eq_self_iff.mp w.trimmed).1
      rw [hfield] at hfront
      by_contra hblank
      rw [List.dropWhile_cons_of_pos (by simpa using hblank)] at hfront
      have hle := (List.dropWhile_suffix isWhitespace (l := l)).length_le
      rw [hfront, List.length_cons] at hle
      omega
  · obtain ⟨front, c, htext, hc, -, -⟩ := w.type.last
    refine ⟨c, ?_, hc⟩
    rw [text, htext, ← List.cons_append, ← List.cons_append, ← List.append_assoc, List.getLast?_concat]

/-- A rule on a line of its own, indented and with filler after it. -/
theorem parseLine_eq {ind a : List Char} (hind : ∀ c ∈ ind, isWhitespace c = true) (ha : Filler a) :
    parseLine (ind ++ w.text ++ a) = some (some w.rule) := by
  obtain ⟨a', ha', htrim⟩ := w.solid.trimChars_append hind a
  obtain ⟨front, c, htext, -, hcomma, -⟩ := w.type.last
  have hlast : w.text.getLast? = some c := by
    rw [text, htext, ← List.cons_append, ← List.cons_append, ← List.append_assoc, List.getLast?_concat]
  obtain ⟨a₂, ha₂, hline⟩ := dropEnd_append (p := (· == ',')) hlast (by simpa using hcomma) a'
  obtain ⟨a₃, ha₃, hrhs⟩ := @Solid.trimChars_append _ w.type.solid [' '] (forall_mem_of_all (by decide)) a₂
  have hsplit : ruleLine (ind ++ w.text ++ a) = w.field ++ ':' :: ([' '] ++ w.type.text ++ a₂) := by
    rw [ruleLine, htrim, trimEndChar, hline, text]
    simp
  rw [parseLine_of_colon hsplit w.field_no_colon, w.trimmed, hrhs,
    parseRhs_type _ _ (ha.of_prefix (ha₃.trans (ha₂.trans ha')))]
  rfl

/-- A rule on a line of its own, and filler up to the next. -/
theorem rulesOf_eq {ind a : List Char} (hind : ∀ c ∈ ind, isWhitespace c = true) (hbreak : '\n' ∉ ind) (ha : Filler a) :
    rulesOf (ind ++ w.text ++ a) = some [w.rule] := by
  have hone : ∀ {a : List Char}, Filler a → '\n' ∉ a → rulesOf (ind ++ w.text ++ a) = some [w.rule] := by
    intro a ha hnone
    have hline : '\n' ∉ ind ++ w.text ++ a := by
      simp only [List.mem_append, not_or]
      exact ⟨⟨hbreak, w.no_break⟩, hnone⟩
    rw [rulesOf, List.splitOn_eq_singleton hline, parseLines, w.parseLine_eq hind ha]
    rfl
  by_cases hmem : '\n' ∈ a
  · obtain ⟨a₁, a₂, rfl, hfirst⟩ := List.eq_append_cons_of_mem hmem
    have hcolon : ':' ∉ a₂ := fun h => ha.not_mem (by decide) (by decide) (List.mem_append_right a₁ (List.mem_cons_of_mem _ h))
    rw [← List.append_assoc, rulesOf_break, hone (ha.of_prefix (List.prefix_append _ _)) hfirst, rulesOf_of_noColon hcolon]
    rfl
  · exact hone ha hmem

end WrittenRule

/-! ## Separators -/

/-- A list is split at the last occurrence. -/
theorem mem_split_last {c : Char} {l : List Char} (h : c ∈ l) : ∃ a b, l = a ++ c :: b ∧ c ∉ b := by
  obtain ⟨b, a, hrev, hb⟩ := List.eq_append_cons_of_mem (List.mem_reverse.mpr h)
  refine ⟨a.reverse, b.reverse, ?_, fun hmem => hb (List.mem_reverse.mp hmem)⟩
  rw [← List.reverse_reverse l, hrev]
  simp

namespace Separator

variable (s : Separator)

theorem filler : Filler s.text := by
  intro c hc
  rw [text, List.mem_append, List.mem_append] at hc
  rcases hc with (hc | hc) | hc
  · exact Or.inl (s.blankBefore c hc)
  · split at hc
    · exact Or.inr (List.mem_singleton.mp hc)
    · cases hc
  · exact Or.inl (s.blankAfter c hc)

/-- Where the last line break of a separator stands, if there is one: after the comma, or before it. -/
theorem cases_last :
    (s.Breaks ∧ ∃ s₁ s₂, s.text = s₁ ++ '\n' :: s₂ ∧ '\n' ∉ s₂ ∧ Filler s₁ ∧ ∀ c ∈ s₂, isWhitespace c = true) ∨
      (¬s.Breaks ∧ ∃ s₁ b, s.text = s₁ ++ '\n' :: (b ++ ',' :: s.after) ∧ '\n' ∉ b ++ ',' :: s.after ∧ Filler s₁ ∧
        ∀ c ∈ b, isWhitespace c = true) ∨
      ¬s.Breaks ∧ '\n' ∉ s.text := by
  cases hcomma : s.comma with
  | false =>
    have hmem : '\n' ∈ s.before ++ s.after := s.separates.resolve_left (by simp [hcomma])
    have htext : s.text = s.before ++ s.after := by simp [text, hcomma]
    obtain ⟨s₁, s₂, hsplit, hlast⟩ := mem_split_last hmem
    have hblank : ∀ c ∈ s₁ ++ '\n' :: s₂, isWhitespace c = true := by
      rw [← hsplit]
      intro c hc
      exact (List.mem_append.mp hc).elim (s.blankBefore c) (s.blankAfter c)
    refine Or.inl ⟨by simp [Breaks, hcomma], s₁, s₂, by rw [htext, hsplit], hlast, ?_, ?_⟩
    · exact filler_of_blanks fun c hc => hblank c (List.mem_append_left _ hc)
    · exact fun c hc => hblank c (List.mem_append_right _ (List.mem_cons_of_mem _ hc))
  | true =>
    have htext : s.text = s.before ++ ',' :: s.after := by simp [text, hcomma]
    by_cases hafter : '\n' ∈ s.after
    · obtain ⟨b₁, b₂, hsplit, hlast⟩ := mem_split_last hafter
      refine Or.inl ⟨fun _ => hafter, s.before ++ ',' :: b₁, b₂, by rw [htext, hsplit]; simp, hlast, ?_, ?_⟩
      · refine s.filler.of_prefix ⟨'\n' :: b₂, ?_⟩
        rw [htext, hsplit]
        simp
      · exact fun c hc => s.blankAfter c (hsplit ▸ List.mem_append_right _ (List.mem_cons_of_mem _ hc))
    · have hnot : ¬s.Breaks := fun h => hafter (h hcomma)
      by_cases hbefore : '\n' ∈ s.before
      · obtain ⟨b₁, b₂, hsplit, hlast⟩ := mem_split_last hbefore
        refine Or.inr (Or.inl ⟨hnot, b₁, b₂, by rw [htext, hsplit]; simp, ?_, ?_, ?_⟩)
        · simp only [List.mem_append, List.mem_cons, not_or]
          exact ⟨hlast, by decide, hafter⟩
        · exact filler_of_blanks fun c hc => s.blankBefore c (hsplit ▸ List.mem_append_left _ hc)
        · exact fun c hc => s.blankBefore c (hsplit ▸ List.mem_append_right _ (List.mem_cons_of_mem _ hc))
      · refine Or.inr (Or.inr ⟨hnot, ?_⟩)
        rw [htext]
        simp only [List.mem_append, List.mem_cons, not_or]
        exact ⟨hbefore, by decide, hafter⟩

end Separator

/-! ## Lists of rules -/

section Lists

variable {post : List Char} (hpost : ∀ c ∈ post, isWhitespace c = true)
include hpost

/-- Rules with a line break between every two of them are all read. -/
theorem rulesOf_broken {ind : List Char} (hind : ∀ c ∈ ind, isWhitespace c = true) (hbreak : '\n' ∉ ind) (w : WrittenRule)
    {rest : List (Separator × WrittenRule)} (h : ∀ p ∈ rest, p.1.Breaks) :
    rulesOf (ind ++ w.text ++ tailText rest post) = some (w.rule :: rest.map fun p => p.2.rule) := by
  induction rest generalizing ind w with
  | nil => exact w.rulesOf_eq hind hbreak (filler_of_blanks hpost)
  | cons p rest ih =>
    obtain ⟨s, w'⟩ := p
    obtain ⟨hs, hrest⟩ := List.forall_mem_cons.mp h
    rcases s.cases_last with ⟨-, s₁, s₂, htext, hlast, hfiller, hblank⟩ | ⟨hnot, -⟩ | ⟨hnot, -⟩
    · have hsplit : ind ++ w.text ++ tailText ((s, w') :: rest) post =
          (ind ++ w.text ++ s₁) ++ '\n' :: (s₂ ++ w'.text ++ tailText rest post) := by
        simp [tailText, htext]
      rw [hsplit, rulesOf_break, w.rulesOf_eq hind hbreak hfiller, ih hblank hlast w' hrest]
      rfl
    · exact absurd hs hnot
    · exact absurd hs hnot

/-- There are no more lines with a colon than rules. -/
theorem colonLines_written {q : List Char} (hq : '\n' ∉ q) (w : WrittenRule) (rest : List (Separator × WrittenRule)) :
    colonLines (q ++ w.text ++ tailText rest post) ≤ rest.length + 1 := by
  have hfront : ∀ {q : List Char} (w : WrittenRule), '\n' ∉ q → '\n' ∉ q ++ w.text := by
    intro q w hq
    rw [List.mem_append, not_or]
    exact ⟨hq, w.no_break⟩
  induction rest generalizing q w with
  | nil => exact colonLines_le_one (hfront w hq) ((filler_of_blanks hpost).not_mem (by decide) (by decide))
  | cons p rest ih =>
    obtain ⟨s, w'⟩ := p
    by_cases hs : '\n' ∈ s.text
    · obtain ⟨s₁, s₂, htext, hlast⟩ := mem_split_last hs
      have hsplit : q ++ w.text ++ tailText ((s, w') :: rest) post =
          (q ++ w.text ++ s₁) ++ '\n' :: (s₂ ++ w'.text ++ tailText rest post) := by
        simp [tailText, htext]
      have hcolon : ':' ∉ s₁ := fun h => s.filler.not_mem (by decide) (by decide) (htext ▸ List.mem_append_left _ h)
      have hone := colonLines_le_one (hfront w hq) hcolon
      have hmore := ih hlast w'
      rw [hsplit, colonLines_break, List.length_cons]
      omega
    · have hsplit : q ++ w.text ++ tailText ((s, w') :: rest) post = (q ++ w.text ++ s.text) ++ w'.text ++ tailText rest post := by
        simp [tailText]
      have hmore := ih (q := q ++ w.text ++ s.text) (by rw [List.mem_append, not_or]; exact ⟨hfront w hq, hs⟩) w'
      rw [hsplit, List.length_cons]
      omega

omit hpost in
/-- A comma in front of a field becomes part of it. -/
theorem comma_mem_field {b : List Char} (hb : ∀ c ∈ b, isWhitespace c = true) (l : List Char) {r : Rule}
    (h : parseLine (b ++ [','] ++ l) = some (some r)) : ',' ∈ r.field.toList := by
  have hsolid : Solid [','] := ⟨⟨',', rfl, by decide⟩, ⟨',', rfl, by decide⟩⟩
  rcases ruleLine_cases (b ++ [','] ++ l) with hnone | ⟨x, y, hxy, hx⟩
  · rw [parseLine_of_noColon hnone] at h
    cases h
  · rw [parseLine_of_colon hxy hx] at h
    rw [field_of_parseRhs h, String.toList_ofList]
    obtain ⟨l', -, htrim⟩ := hsolid.trimChars_append hb l
    have hprefix : x ++ ':' :: y <+: [','] ++ l' := by
      rw [← hxy, ruleLine, htrim, trimEndChar]
      have hsuffix := (List.dropWhile_suffix (· == ',') (l := ([','] ++ l').reverse)).reverse
      rwa [List.reverse_reverse] at hsuffix
    cases x with
    | nil =>
      have hhead := (List.cons_prefix_cons.mp hprefix).1
      cases hhead
    | cons c x =>
      rw [(List.cons_prefix_cons.mp hprefix).1]
      obtain ⟨x', -, htrim'⟩ := hsolid.trimChars_append (List.forall_mem_nil _) x
      rw [List.nil_append] at htrim'
      rw [← List.singleton_append, htrim']
      exact List.mem_append_left _ (List.mem_singleton_self _)

/-- Without a line break between two rules, a rule is lost or takes a comma into its field. -/
theorem rulesOf_unbroken {q : List Char} (hq : '\n' ∉ q) (w : WrittenRule) {rest : List (Separator × WrittenRule)}
    (hbad : ∃ p ∈ rest, ¬p.1.Breaks) {rules : List Rule} (h : rulesOf (q ++ w.text ++ tailText rest post) = some rules) :
    rules.length ≤ rest.length ∨ ∃ r ∈ rules, ',' ∈ r.field.toList := by
  induction rest generalizing q w rules with
  | nil =>
    obtain ⟨p, hp, -⟩ := hbad
    cases hp
  | cons p rest ih =>
    obtain ⟨s, w'⟩ := p
    have hfront : '\n' ∉ q ++ w.text := by
      rw [List.mem_append, not_or]
      exact ⟨hq, w.no_break⟩
    -- a line break cuts off the first rule, which gives at most one
    have hcut : ∀ {s₁ s₂ : List Char}, s.text = s₁ ++ '\n' :: s₂ → Filler s₁ → ∃ r t, rules = r ++ t ∧ r.length ≤ 1 ∧
        rulesOf (s₂ ++ w'.text ++ tailText rest post) = some t := by
      intro s₁ s₂ htext hfiller
      have hsplit : q ++ w.text ++ tailText ((s, w') :: rest) post =
          (q ++ w.text ++ s₁) ++ '\n' :: (s₂ ++ w'.text ++ tailText rest post) := by
        simp [tailText, htext]
      rw [hsplit, rulesOf_break] at h
      obtain ⟨r, hr, h⟩ := Option.bind_eq_some_iff.mp h
      obtain ⟨t, ht, h⟩ := Option.bind_eq_some_iff.mp h
      cases h
      exact ⟨r, t, rfl, (length_le_colonLines hr).trans (colonLines_le_one hfront (hfiller.not_mem (by decide) (by decide))), ht⟩
    rcases s.cases_last with ⟨hs, s₁, s₂, htext, hlast, hfiller, -⟩ | ⟨-, s₁, b, htext, hlast, hfiller, hb⟩ | ⟨-, hnone⟩
    · obtain ⟨r, t, rfl, hr, ht⟩ := hcut htext hfiller
      obtain ⟨p, hp, hnot⟩ := hbad
      have hp' : p ∈ rest := (List.mem_cons.mp hp).resolve_left fun heq => hnot (heq ▸ hs)
      rcases ih hlast w' ⟨p, hp', hnot⟩ ht with hlen | ⟨e, he, hcomma⟩
      · left
        rw [List.length_append, List.length_cons]
        omega
      · exact Or.inr ⟨e, List.mem_append_right _ he, hcomma⟩
    · obtain ⟨r, t, rfl, hr, ht⟩ := hcut htext hfiller
      have hline : '\n' ∉ b ++ ',' :: s.after ++ w'.text := by
        rw [List.mem_append, not_or]
        exact ⟨hlast, w'.no_break⟩
      obtain ⟨first, more, -, hlines⟩ := splitOn_append_of_not_mem hline (tailText rest post)
      have hcount := colonLines_written hpost hlast w' rest
      rw [colonLines, hlines, List.countP_cons_of_pos (by simp [WrittenRule.text])] at hcount
      rw [rulesOf, hlines, parseLines] at ht
      obtain ⟨rule, hrule, ht⟩ := Option.bind_eq_some_iff.mp ht
      obtain ⟨others, hothers, ht⟩ := Option.bind_eq_some_iff.mp ht
      cases ht
      cases rule with
      | none =>
        have hle := length_le_of_parseLines hothers
        left
        simp only [Option.toList_none, List.nil_append, List.length_append, List.length_cons]
        omega
      | some e =>
        have hcomma : ',' ∈ e.field.toList := by
          refine comma_mem_field hb (s.after ++ w'.text ++ first) ?_
          rw [← hrule]
          simp
        exact Or.inr ⟨e, by simp, hcomma⟩
    · have hsplit : q ++ w.text ++ tailText ((s, w') :: rest) post = (q ++ w.text ++ s.text) ++ w'.text ++ tailText rest post := by
        simp [tailText]
      have hcount := colonLines_written hpost (q := q ++ w.text ++ s.text)
        (by rw [List.mem_append, not_or]; exact ⟨hfront, hnone⟩) w' rest
      rw [hsplit] at h
      exact Or.inl ((length_le_colonLines h).trans hcount)

end Lists

end WebPipe
