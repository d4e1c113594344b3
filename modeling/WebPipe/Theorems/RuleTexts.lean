import WebPipe.Lemmas.WrittenRules
import WebPipe.Lib.Framing

/-!
# Texts of rules

Rules that are written down are read back exactly when a line break stands between every two of them: a comma alone separates nothing.
A text is read without a panic exactly when no line with a string rule closes its last bracket before it opens its first.
-/

namespace WebPipe

open Text

/-! ## Configurations -/

/-- A configuration as it is written. -/
structure WrittenConfig where
  pre : List Char
  /-- The white space inside the braces, where there are braces. -/
  braces : Option (List Char × List Char)
  first : WrittenRule
  rest : List (Separator × WrittenRule)
  post : List Char
  blankPre : ∀ c ∈ pre, isWhitespace c = true
  blankPost : ∀ c ∈ post, isWhitespace c = true
  blankBraces : ∀ b ∈ braces, (∀ c ∈ b.1, isWhitespace c = true) ∧ ∀ c ∈ b.2, isWhitespace c = true

namespace WrittenConfig

def body (cfg : WrittenConfig) : List Char :=
  match cfg.braces with
  | none => cfg.first.text ++ tailText cfg.rest []
  | some (open_, close) => '\x7b' :: (open_ ++ (cfg.first.text ++ tailText cfg.rest close) ++ ['\x7d'])

def text (cfg : WrittenConfig) : String := String.ofList (cfg.pre ++ cfg.body ++ cfg.post)

/-- The rules that are meant. -/
def rules (cfg : WrittenConfig) : List Rule := cfg.first.rule :: cfg.rest.map fun p => p.2.rule

end WrittenConfig

/-- What stands between two braces. -/
theorem slice_braced (inner : List Char) :
    slice 1 (utf8Len ('\x7b' :: (inner ++ ['\x7d'])) - 1) ('\x7b' :: (inner ++ ['\x7d'])) = some inner := by
  refine slice_eq_some_iff.mpr ⟨['\x7b'], ['\x7d'], rfl, rfl, ?_⟩
  have hone : utf8Len ['\x7d'] = 1 := rfl
  rw [← List.cons_append, utf8Len_append ('\x7b' :: inner), hone, Nat.add_sub_cancel]
  rfl

/-- The braces around a configuration are taken off. -/
theorem trimWrappingBraces_braced {pre post : List Char} (hpre : ∀ c ∈ pre, isWhitespace c = true)
    (hpost : ∀ c ∈ post, isWhitespace c = true) (inner : List Char) :
    trimWrappingBraces (pre ++ '\x7b' :: (inner ++ ['\x7d']) ++ post) = some inner := by
  have hsolid : Solid ('\x7b' :: (inner ++ ['\x7d'])) := by
    refine ⟨⟨'\x7b', rfl, by decide⟩, '\x7d', ?_, by decide⟩
    rw [← List.cons_append, List.getLast?_concat]
  have htrim : trimChars (pre ++ '\x7b' :: (inner ++ ['\x7d']) ++ post) = '\x7b' :: (inner ++ ['\x7d']) := by
    rw [trimChars_append_blanks _ hpost, trimChars_append hpre hsolid.trimChars_eq]
  have hlast : ('\x7b' :: (inner ++ ['\x7d'])).getLast? = some '\x7d' := by rw [← List.cons_append, List.getLast?_concat]
  unfold trimWrappingBraces
  rw [htrim]
  dsimp only
  rw [if_pos ⟨rfl, hlast⟩]
  exact slice_braced inner

/-- A text that does not end in a brace is taken as it is. -/
theorem trimWrappingBraces_bare {pre post core : List Char} (hpre : ∀ c ∈ pre, isWhitespace c = true)
    (hpost : ∀ c ∈ post, isWhitespace c = true) (hcore : Solid core) (hlast : core.getLast? ≠ some '\x7d') :
    trimWrappingBraces (pre ++ core ++ post) = some core := by
  have htrim : trimChars (pre ++ core ++ post) = core := by
    rw [trimChars_append_blanks _ hpost, trimChars_append hpre hcore.trimChars_eq]
  unfold trimWrappingBraces
  rw [htrim]
  dsimp only
  rw [if_neg fun h => hlast h.2]

/-- White space in front of the rules does not matter. -/
theorem rulesOf_indented {ind : List Char} (hind : ∀ c ∈ ind, isWhitespace c = true) (l : List Char) :
    ∃ ind', (∀ c ∈ ind', isWhitespace c = true) ∧ '\n' ∉ ind' ∧ rulesOf (ind ++ l) = rulesOf (ind' ++ l) := by
  by_cases hmem : '\n' ∈ ind
  · obtain ⟨a, b, rfl, hb⟩ := mem_split_last hmem
    refine ⟨b, fun c hc => hind c (List.mem_append_right _ (List.mem_cons_of_mem _ hc)), hb, ?_⟩
    have hcolon : ':' ∉ a :=
      (filler_of_blanks fun c hc => hind c (List.mem_append_left _ hc)).not_mem (by decide) (by decide)
    rw [List.append_assoc, List.cons_append, rulesOf_break, rulesOf_of_noColon hcolon]
    cases rulesOf (b ++ l) <;> rfl
  · exact ⟨ind, hind, hmem, rfl⟩

/-- The end of the last rule. -/
theorem last_written (w : WrittenRule) (rest : List (Separator × WrittenRule)) :
    ∃ front c, w.text ++ tailText rest [] = front ++ [c] ∧ isWhitespace c = false ∧ c ≠ '\x7d' := by
  induction rest generalizing w with
  | nil =>
    obtain ⟨front, c, htext, hc, -, hbrace⟩ := w.type.last
    refine ⟨w.field ++ ':' :: ' ' :: front, c, ?_, hc, hbrace⟩
    rw [tailText, List.append_nil, WrittenRule.text, htext]
    simp
  | cons p rest ih =>
    obtain ⟨front, c, htext, hc, hbrace⟩ := ih p.2
    refine ⟨w.text ++ (p.1.text ++ front), c, ?_, hc, hbrace⟩
    rw [tailText, htext]
    simp

namespace WrittenConfig

variable (cfg : WrittenConfig)

/-- What `parse_rules` reads: indentation, the rules, and white space. -/
theorem parseRules_eq : ∃ ind post, (∀ c ∈ ind, isWhitespace c = true) ∧ '\n' ∉ ind ∧ (∀ c ∈ post, isWhitespace c = true) ∧
    parseRules cfg.text = rulesOf (ind ++ cfg.first.text ++ tailText cfg.rest post) := by
  unfold parseRules text
  rw [String.toList_ofList]
  cases hbraces : cfg.braces with
  | none =>
    have hbody : cfg.body = cfg.first.text ++ tailText cfg.rest [] := by rw [body, hbraces]
    obtain ⟨front, c, htext, hc, hbrace⟩ := last_written cfg.first cfg.rest
    have hlast : (cfg.first.text ++ tailText cfg.rest []).getLast? = some c := by rw [htext, List.getLast?_concat]
    have hsolid : Solid (cfg.first.text ++ tailText cfg.rest []) := by
      obtain ⟨d, hd, hblank⟩ := cfg.first.solid.first
      exact ⟨⟨d, by rw [List.head?_append, hd]; rfl, hblank⟩, c, hlast, hc⟩
    refine ⟨[], [], List.forall_mem_nil _, List.not_mem_nil, List.forall_mem_nil _, ?_⟩
    rw [hbody, trimWrappingBraces_bare cfg.blankPre cfg.blankPost hsolid (by rw [hlast]; simpa using hbrace)]
    exact parseLines_lines _
  | some b =>
    obtain ⟨open_, close⟩ := b
    obtain ⟨hopen, hclose⟩ := cfg.blankBraces _ (by rw [hbraces]; rfl)
    have hbody : cfg.body = '\x7b' :: (open_ ++ (cfg.first.text ++ tailText cfg.rest close) ++ ['\x7d']) := by rw [body, hbraces]
    obtain ⟨ind, hind, hbreak, heq⟩ := rulesOf_indented hopen (cfg.first.text ++ tailText cfg.rest close)
    refine ⟨ind, close, hind, hbreak, hclose, ?_⟩
    rw [hbody, trimWrappingBraces_braced cfg.blankPre cfg.blankPost, List.append_assoc, ← heq]
    exact parseLines_lines _

/-- The rules of a configuration are read exactly when a line break stands between every two of them. -/
theorem rules_read_iff : parseRules cfg.text = some cfg.rules ↔ ∀ p ∈ cfg.rest, p.1.Breaks := by
  obtain ⟨ind, post, hind, hbreak, hpost, heq⟩ := cfg.parseRules_eq
  rw [heq]
  constructor
  · intro h
    by_contra hbad
    push Not at hbad
    rcases rulesOf_unbroken hpost hbreak cfg.first hbad h with hlen | ⟨r, hr, hcomma⟩
    · rw [rules, List.length_cons, List.length_map] at hlen
      omega
    · have hplain : ∀ w : WrittenRule, ',' ∉ w.rule.field.toList := by
        intro w hmem
        rw [WrittenRule.rule, String.toList_ofList] at hmem
        exact (w.plain _ hmem).2.1 rfl
      rcases List.mem_cons.mp hr with rfl | hr
      · exact hplain _ hcomma
      · obtain ⟨p, -, rfl⟩ := List.mem_map.mp hr
        exact hplain _ hcomma
  · exact rulesOf_broken hpost hind hbreak cfg.first

end WrittenConfig

/-! ## Panics -/

/-- The line has a string rule whose brackets all close before the first opens. -/
def ReversedBrackets (line : List Char) : Prop :=
  ∃ field rhs x y, ruleLine line = field ++ ':' :: rhs ∧ ':' ∉ field ∧ "string".toList <+: trimChars rhs ∧
    trimChars rhs = x ++ '(' :: y ∧ '(' ∉ x ∧ ')' ∈ x ∧ ')' ∉ y

/-- The bounds cannot be cut out exactly where the brackets are the wrong way round. -/
theorem parseBounds_eq_none_iff {rhs : List Char} :
    parseBounds rhs = none ↔ ∃ x y, rhs = x ++ '(' :: y ∧ '(' ∉ x ∧ ')' ∈ x ∧ ')' ∉ y := by
  by_cases hopen : '(' ∈ rhs
  · obtain ⟨x, y, rfl, hx⟩ := List.eq_append_cons_of_mem hopen
    have honly : (∃ x' y', x ++ '(' :: y = x' ++ '(' :: y' ∧ '(' ∉ x' ∧ ')' ∈ x' ∧ ')' ∉ y') ↔ ')' ∈ x ∧ ')' ∉ y := by
      constructor
      · rintro ⟨x', y', h, hx', hclose⟩
        obtain ⟨rfl, rfl⟩ := Framing.append_cons_inj hx hx' h
        exact hclose
      · intro hclose
        exact ⟨x, y, rfl, hx, hclose⟩
    rw [honly, parseBounds, find_append hx]
    by_cases hclose : ')' ∈ x ++ '(' :: y
    · obtain ⟨a, b, hab, hb⟩ := mem_split_last hclose
      have hrfind : rfind ')' (x ++ '(' :: y) = some (utf8Len a) := by
        rw [hab]
        exact rfind_append a hb
      rw [hrfind]
      dsimp only
      rw [Option.map_eq_none_iff]
      rcases List.append_eq_append_iff.mp hab with ⟨t, rfl, ht⟩ | ⟨t, rfl, ht⟩
      · -- the last closing bracket stands after the first opening one
        cases t with
        | nil => cases ht
        | cons d t =>
          obtain ⟨rfl, rfl⟩ := List.cons.inj ht
          have hcut : slice (utf8Len x + 1) (utf8Len (x ++ '(' :: t)) (x ++ '(' :: (t ++ ')' :: b)) = some t := by
            refine slice_eq_some_iff.mpr ⟨x ++ ['('], ')' :: b, by simp, ?_, by simp⟩
            rw [utf8Len_append]
            rfl
          refine iff_of_false (fun hnone => Option.some_ne_none t (hcut.symm.trans hnone)) ?_
          rintro ⟨-, hnot⟩
          exact hnot (by simp)
      · -- it stands before
        cases t with
        | nil => cases ht
        | cons d t =>
          obtain ⟨rfl, rfl⟩ := List.cons.inj ht
          refine iff_of_true (if_neg ?_) ⟨by simp, fun hmem => hb (by simp [hmem])⟩
          rw [utf8Len_append]
          omega
    · refine iff_of_false ?_ fun h => hclose (List.mem_append_left _ h.1)
      rw [rfind, if_neg hclose]
      exact Option.some_ne_none _
  · refine iff_of_false ?_ ?_
    · rw [parseBounds, find, if_neg hopen]
      exact Option.some_ne_none _
    · rintro ⟨x, y, rfl, -⟩
      exact hopen (by simp)

theorem parseRhs_eq_none_iff {field : String} {rhs : List Char} :
    parseRhs field rhs = none ↔ "string".toList <+: rhs ∧ parseBounds rhs = none := by
  by_cases hstring : "string".toList <+: rhs
  · rw [parseRhs_string field hstring, Option.map_eq_none_iff]
    exact (and_iff_right hstring).symm
  · refine iff_of_false ?_ fun h => hstring h.1
    rw [parseRhs, if_neg (by rwa [List.isPrefixOf_iff_prefix])]
    repeat' split
    all_goals exact Option.some_ne_none _

/-- A line panics exactly where its brackets are the wrong way round. -/
theorem parseLine_eq_none_iff {line : List Char} : parseLine line = none ↔ ReversedBrackets line := by
  rcases ruleLine_cases line with hnone | ⟨field, rhs, hline, hfield⟩
  · refine iff_of_false (by rw [parseLine_of_noColon hnone]; nofun) ?_
    rintro ⟨field, rhs, x, y, hline, -⟩
    exact hnone (by simp [hline])
  · rw [parseLine_of_colon hline hfield, parseRhs_eq_none_iff, parseBounds_eq_none_iff]
    constructor
    · rintro ⟨hstring, x, y, h⟩
      exact ⟨field, rhs, x, y, hline, hfield, hstring, h⟩
    · rintro ⟨field', rhs', x, y, hline', hfield', hstring, h⟩
      rw [hline] at hline'
      obtain ⟨rfl, rfl⟩ := Framing.append_cons_inj hfield hfield' hline'
      exact ⟨hstring, x, y, h⟩

theorem parseLines_eq_none_iff {ls : List (List Char)} : parseLines ls = none ↔ ∃ line ∈ ls, ReversedBrackets line := by
  induction ls with
  | nil => simp [parseLines]
  | cons line ls ih =>
    rw [List.exists_mem_cons_iff, ← ih, ← parseLine_eq_none_iff, parseLines]
    cases parseLine line with
    | none => simp
    | some rule => cases parseLines ls <;> simp

/-- The braces can always be taken off. -/
theorem exists_trimWrappingBraces (s : List Char) : ∃ body, trimWrappingBraces s = some body := by
  unfold trimWrappingBraces
  dsimp only
  split
  · next h =>
    obtain ⟨hopen, hclose⟩ := h
    cases ht : trimChars s with
    | nil =>
      rw [ht] at hopen
      cases hopen
    | cons c t =>
      rw [ht] at hopen hclose
      cases hopen
      cases t with
      | nil => cases hclose
      | cons d t =>
        obtain ⟨inner, hinner⟩ := List.getLast?_eq_some_iff.mp (by rwa [List.getLast?_cons_cons] at hclose)
        rw [hinner]
        exact ⟨inner, slice_braced inner⟩
  · exact ⟨_, rfl⟩

/-- The lines that `parse_rules` goes through. -/
def ruleLines (cfg : String) : List (List Char) := (trimWrappingBraces cfg.toList).elim [] lines

/-- A text of rules is read without a panic exactly when no line of it has its brackets the wrong way round. -/
theorem parseRules_sound_iff (cfg : String) : parseRules cfg ≠ none ↔ ∀ line ∈ ruleLines cfg, ¬ReversedBrackets line := by
  obtain ⟨body, hbody⟩ := exists_trimWrappingBraces cfg.toList
  have hlines : ruleLines cfg = lines body := by rw [ruleLines, hbody]; rfl
  have hparse : parseRules cfg = parseLines (lines body) := by
    rw [parseRules, hbody]
    rfl
  rw [hlines, hparse, ne_eq, parseLines_eq_none_iff]
  push Not
  rfl

/-- Rules that are written down are read back exactly when a line break stands between every two of them; a text is read without a
panic exactly when no line has its brackets the wrong way round. -/
theorem parse_rules_iff (cfg : WrittenConfig) (text : String) :
    (parseRules cfg.text = some cfg.rules ↔ ∀ p ∈ cfg.rest, p.1.Breaks) ∧
      (parseRules text ≠ none ↔ ∀ line ∈ ruleLines text, ¬ReversedBrackets line) :=
  ⟨cfg.rules_read_iff, parseRules_sound_iff text⟩

/-! ## Rules on one line -/

/-- `name: string(3..100)`. -/
def nameRule : WrittenRule where
  field := "name".toList
  type := .bounded 3 100 (by decide) (by decide)
  trimmed := by decide
  plain := by simp

/-- `email: email`. -/
def emailRule : WrittenRule where
  field := "email".toList
  type := .email
  trimmed := by decide
  plain := by simp

theorem blank_nil : ∀ c ∈ ([] : List Char), isWhitespace c = true := List.forall_mem_nil _

/-- `, `. -/
def commaAndBlank : Separator where
  before := []
  comma := true
  after := [' ']
  blankBefore := blank_nil
  blankAfter := forall_mem_of_all (by decide)
  separates := Or.inl rfl

/-- `{ name: string(3..100), email: email }`. -/
def rulesOnOneLine : WrittenConfig where
  pre := []
  braces := some ([' '], [' '])
  first := nameRule
  rest := [(commaAndBlank, emailRule)]
  post := []
  blankPre := blank_nil
  blankPost := blank_nil
  blankBraces := by
    rintro _ ⟨⟩
    exact ⟨forall_mem_of_all (by decide), forall_mem_of_all (by decide)⟩

/-- The second rule is lost, and a bracket the wrong way round panics. -/
theorem one_line_loses_rule : (¬∀ cfg : WrittenConfig, parseRules cfg.text = some cfg.rules) ∧ ¬∀ text, parseRules text ≠ none := by
  constructor
  · intro h
    exact absurd (h rulesOnOneLine) (by decide +kernel)
  · intro h
    exact h "a: string)(" (by decide +kernel)

end WebPipe
