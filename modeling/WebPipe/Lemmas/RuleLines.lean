import WebPipe.Middleware.Validate

/-!
# Lines of rules

What `parse_rules` makes of one line, and of the lines of a text that is put together from parts.
-/

namespace WebPipe

open Text

/-! ## Trimming -/

/-- Dropping from the end stops at a character that stays. -/
theorem dropEnd_append {p : Char → Bool} {core : List Char} {c : Char} (hc : core.getLast? = some c) (hp : p c = false) (a : List Char) :
    ∃ a', a' <+: a ∧ ((core ++ a).reverse.dropWhile p).reverse = core ++ a' := by
  obtain ⟨core', rfl⟩ := List.getLast?_eq_some_iff.mp hc
  have hcore : ((core' ++ [c]).reverse).dropWhile p = (core' ++ [c]).reverse := by simp [hp]
  rw [List.reverse_append, List.dropWhile_append, hcore]
  split
  · exact ⟨[], List.nil_prefix, by rw [List.reverse_reverse, List.append_nil]⟩
  · refine ⟨(a.reverse.dropWhile p).reverse, ?_, by rw [List.reverse_append, List.reverse_reverse]⟩
    have hsuffix := (List.dropWhile_suffix p (l := a.reverse)).reverse
    rwa [List.reverse_reverse] at hsuffix

/-- A text that starts and ends with something visible. -/
structure Solid (core : List Char) : Prop where
  first : ∃ c, core.head? = some c ∧ isWhitespace c = false
  last : ∃ c, core.getLast? = some c ∧ isWhitespace c = false

theorem Solid.dropWhile {core : List Char} (h : Solid core) (a : List Char) :
    (core ++ a).dropWhile isWhitespace = core ++ a := by
  obtain ⟨c, hc, hblank⟩ := h.first
  cases core with
  | nil => cases hc
  | cons d core =>
    cases hc
    rw [List.cons_append, List.dropWhile_cons_of_neg (by simp [hblank])]

/-- Between white space and any text, a solid part is kept. -/
theorem Solid.trimChars_append {core : List Char} (h : Solid core) {ind : List Char} (hind : ∀ c ∈ ind, isWhitespace c = true)
    (a : List Char) : ∃ a', a' <+: a ∧ trimChars (ind ++ core ++ a) = core ++ a' := by
  obtain ⟨c, hc, hblank⟩ := h.last
  rw [trimChars, List.append_assoc, List.dropWhile_append_of_pos hind, h.dropWhile]
  exact dropEnd_append hc hblank a

/-- A solid text has nothing to trim. -/
theorem Solid.trimChars_eq {core : List Char} (h : Solid core) : trimChars core = core := by
  obtain ⟨a', ha', heq⟩ := h.trimChars_append (List.forall_mem_nil _) []
  rw [List.prefix_nil.mp ha', List.nil_append, List.append_nil] at heq
  exact heq

/-- White space after a text does not matter when it is trimmed. -/
theorem trimChars_append_blanks (l : List Char) {post : List Char} (hpost : ∀ c ∈ post, isWhitespace c = true) :
    trimChars (l ++ post) = trimChars l := by
  have hreverse : ∀ c ∈ post.reverse, isWhitespace c = true := fun c hc => hpost c (List.mem_reverse.mp hc)
  rw [trimChars, List.dropWhile_append]
  split
  · next hempty =>
    rw [trimChars, List.isEmpty_iff.mp hempty, ← List.append_nil post, List.dropWhile_append_of_pos hpost]
    rfl
  · rw [List.reverse_append, List.dropWhile_append_of_pos hreverse, trimChars]

/-! ## One line -/

theorem mem_of_mem_trimChars {l : List Char} {c : Char} (h : c ∈ trimChars l) : c ∈ l := by
  rw [trimChars, List.mem_reverse] at h
  exact (List.dropWhile_suffix _).subset (List.mem_reverse.mp ((List.dropWhile_suffix _).subset h))

theorem mem_of_mem_ruleLine {l : List Char} {c : Char} (h : c ∈ ruleLine l) : c ∈ l := by
  rw [ruleLine, trimEndChar, List.mem_reverse] at h
  exact mem_of_mem_trimChars (List.mem_reverse.mp ((List.dropWhile_suffix _).subset h))

/-- The offset of a character that does not occur before. -/
theorem find_append {c : Char} {x : List Char} (hx : c ∉ x) (y : List Char) : find c (x ++ c :: y) = some (utf8Len x) := by
  have htake : (x ++ c :: y).takeWhile (· != c) = x := by
    rw [List.takeWhile_append_of_pos (fun a ha => by simpa using fun (h : a = c) => hx (h ▸ ha)), List.takeWhile_cons_of_neg (by simp),
      List.append_nil]
  rw [find, if_pos (by simp), htake]

/-- The offset of a character that does not occur after. -/
theorem rfind_append {c : Char} (x : List Char) {y : List Char} (hy : c ∉ y) : rfind c (x ++ c :: y) = some (utf8Len x) := by
  have hdrop : (x ++ c :: y).reverse.dropWhile (· != c) = c :: x.reverse := by
    rw [List.reverse_append, List.reverse_cons, List.append_assoc, List.dropWhile_append_of_pos (fun a ha => by
      simpa using fun (h : a = c) => hy (h ▸ List.mem_reverse.mp ha))]
    exact List.dropWhile_cons_of_neg (by simp)
  rw [rfind, if_pos (by simp), hdrop, List.drop_one, List.tail_cons, List.reverse_reverse]

/-- A line without a colon is no rule. -/
theorem parseLine_of_noColon {line : List Char} (h : ':' ∉ ruleLine line) : parseLine line = some none := by
  have hfind : find ':' (ruleLine line) = none := if_neg h
  unfold parseLine
  dsimp only
  rw [hfind]
  split <;> rfl

/-- A line is cut at its first colon. -/
theorem parseLine_of_colon {line x y : List Char} (h : ruleLine line = x ++ ':' :: y) (hx : ':' ∉ x) :
    parseLine line = parseRhs (String.ofList (trimChars x)) (trimChars y) := by
  have hfield : slice 0 (utf8Len x) (x ++ ':' :: y) = some x := slice_eq_some_iff.mpr ⟨[], ':' :: y, rfl, rfl, rfl⟩
  have hrhs : sliceFrom (utf8Len x + 1) (x ++ ':' :: y) = some y := by
    refine sliceFrom_eq_some_iff.mpr ⟨x ++ [':'], by simp, ?_⟩
    rw [utf8Len_append]
    rfl
  unfold parseLine
  rw [h]
  dsimp only
  rw [if_neg (by simp), find_append hx]
  dsimp only
  rw [hfield, hrhs]
  rfl

/-- A line is either without a colon or cut at its first. -/
theorem ruleLine_cases (line : List Char) : ':' ∉ ruleLine line ∨ ∃ x y, ruleLine line = x ++ ':' :: y ∧ ':' ∉ x := by
  by_cases hcolon : ':' ∈ ruleLine line
  · exact Or.inr (List.eq_append_cons_of_mem hcolon)
  · exact Or.inl hcolon

/-- The field of a rule is that of its line. -/
theorem field_of_parseRhs {field : String} {rhs : List Char} {rule : Rule} (h : parseRhs field rhs = some (some rule)) :
    rule.field = field := by
  unfold parseRhs at h
  split at h
  · obtain ⟨bounds, -, heq⟩ := Option.map_eq_some_iff.mp h
    cases heq
    rfl
  · split at h
    · cases h
      rfl
    · split at h
      · cases h
        rfl
      · split at h
        · cases h
          rfl
        · cases h

/-- A line with no colon has no rule. -/
theorem mem_of_parseLine {line : List Char} {rule : Rule} (h : parseLine line = some (some rule)) : ':' ∈ line := by
  by_contra hcolon
  rw [parseLine_of_noColon fun hmem => hcolon (mem_of_mem_ruleLine hmem)] at h
  cases h

/-- A carriage return at the end of a line is trimmed. -/
theorem ruleLine_stripReturn (line : List Char) : ruleLine (stripReturn line) = ruleLine line := by
  unfold stripReturn
  split
  · next hlast =>
    obtain ⟨front, rfl⟩ := List.getLast?_eq_some_iff.mp hlast
    rw [List.dropLast_concat, ruleLine, ruleLine, trimChars_append_blanks front (forall_mem_of_all (by decide))]
  · rfl

theorem parseLine_stripReturn (line : List Char) : parseLine (stripReturn line) = parseLine line := by
  rw [parseLine, ruleLine_stripReturn, parseLine]

/-! ## Lines -/

/-- Lines are read one after the other. -/
theorem parseLines_append (a b : List (List Char)) :
    parseLines (a ++ b) = (parseLines a).bind fun x => (parseLines b).bind fun y => some (x ++ y) := by
  induction a with
  | nil =>
    cases h : parseLines b <;> simp [parseLines, h]
  | cons line a ih =>
    rw [List.cons_append, parseLines, parseLines, ih]
    cases parseLine line with
    | none => rfl
    | some rule =>
      cases parseLines a with
      | none => rfl
      | some x =>
        cases parseLines b with
        | none => rfl
        | some y => simp

/-- The rules of a text, by the parts between its line breaks. -/
def rulesOf (l : List Char) : Option (List Rule) := parseLines (l.splitOn '\n')

/-- Carriage returns and an empty last line do not matter. -/
theorem parseLines_lines (l : List Char) : parseLines (lines l) = rulesOf l := by
  have hmap : ∀ ps : List (List Char), parseLines (ps.map stripReturn) = parseLines ps := by
    intro ps
    induction ps with
    | nil => rfl
    | cons p ps ih => rw [List.map_cons, parseLines, parseLines, parseLine_stripReturn, ih]
  obtain ⟨last, hlast⟩ : ∃ last, (l.splitOn '\n').getLast? = some last :=
    ⟨_, List.getLast?_eq_some_getLast (splitOn_ne_nil _ l)⟩
  have hsplit : l.splitOn '\n' = (l.splitOn '\n').dropLast ++ [last] := by
    obtain ⟨front, hfront⟩ := List.getLast?_eq_some_iff.mp hlast
    rw [hfront, List.dropLast_concat]
  have hends : parseLines ((some last).toList.filter fun last => last ≠ []) = parseLines [last] := by
    by_cases hempty : last = []
    · rw [hempty]
      rfl
    · simp [hempty]
  rw [lines, hlast, parseLines_append, hmap, hends, ← parseLines_append, ← hsplit, rulesOf]

/-- A text is read line by line. -/
theorem rulesOf_break (x y : List Char) :
    rulesOf (x ++ '\n' :: y) = (rulesOf x).bind fun r => (rulesOf y).bind fun s => some (r ++ s) := by
  rw [rulesOf, List.splitOn_append_cons_self, parseLines_append]
  rfl

/-- A part between line breaks is part of the text. -/
theorem mem_of_mem_splitOn {c : Char} {l p : List Char} (hp : p ∈ l.splitOn c) : ∀ a ∈ p, a ∈ l := by
  induction l generalizing p with
  | nil =>
    rw [List.splitOn_nil, List.mem_singleton] at hp
    rw [hp]
    exact fun a ha => ha
  | cons d l ih =>
    rw [List.splitOn_cons_eq_if_modifyHead] at hp
    split at hp
    · rcases List.mem_cons.mp hp with rfl | hp
      · nofun
      · exact fun a ha => List.mem_cons_of_mem _ (ih hp a ha)
    · obtain ⟨first, more, hmore⟩ := List.exists_cons_of_ne_nil (splitOn_ne_nil c l)
      rw [hmore, List.modifyHead_cons] at hp
      rw [hmore] at ih
      rcases List.mem_cons.mp hp with rfl | hp
      · intro a ha
        rcases List.mem_cons.mp ha with rfl | ha
        · exact List.mem_cons_self ..
        · exact List.mem_cons_of_mem _ (ih (List.mem_cons_self ..) a ha)
      · exact fun a ha => List.mem_cons_of_mem _ (ih (List.mem_cons_of_mem _ hp) a ha)

/-- Lines without a colon hold no rules. -/
theorem parseLines_of_noColon {ps : List (List Char)} (h : ∀ p ∈ ps, ':' ∉ p) : parseLines ps = some [] := by
  induction ps with
  | nil => rfl
  | cons p ps ih =>
    have hp : parseLine p = some none := parseLine_of_noColon fun hmem => h p (List.mem_cons_self ..) (mem_of_mem_ruleLine hmem)
    rw [parseLines, hp, ih fun q hq => h q (List.mem_cons_of_mem _ hq)]
    rfl

/-- Text without a colon has no rules. -/
theorem rulesOf_of_noColon {l : List Char} (h : ':' ∉ l) : rulesOf l = some [] :=
  parseLines_of_noColon fun _ hp hcolon => h (mem_of_mem_splitOn hp _ hcolon)

/-! ## Counting -/

/-- The lines with a colon. -/
def colonLines (l : List Char) : ℕ := (l.splitOn '\n').countP fun p => ':' ∈ p

/-- The lines with a colon are counted line by line. -/
theorem colonLines_break (x y : List Char) : colonLines (x ++ '\n' :: y) = colonLines x + colonLines y := by
  rw [colonLines, List.splitOn_append_cons_self, List.countP_append]
  rfl

/-- There are no more rules than lines with a colon. -/
theorem length_le_of_parseLines {ps : List (List Char)} {rules : List Rule} (h : parseLines ps = some rules) :
    rules.length ≤ ps.countP fun p => ':' ∈ p := by
  induction ps generalizing rules with
  | nil =>
    cases h
    exact Nat.zero_le _
  | cons p ps ih =>
    rw [parseLines] at h
    obtain ⟨rule, hrule, h⟩ := Option.bind_eq_some_iff.mp h
    obtain ⟨rest, hrest, h⟩ := Option.bind_eq_some_iff.mp h
    cases h
    have hle := ih hrest
    cases rule with
    | none =>
      rw [List.countP_cons]
      simpa using Nat.le_add_right_of_le hle
    | some rule =>
      rw [List.countP_cons_of_pos (by simpa using mem_of_parseLine hrule)]
      simpa using hle

/-- There are no more rules than lines with a colon. -/
theorem length_le_colonLines {l : List Char} {rules : List Rule} (h : rulesOf l = some rules) : rules.length ≤ colonLines l :=
  length_le_of_parseLines h

/-- Text whose colons all stand on its first line. -/
theorem colonLines_le_one {x y : List Char} (hx : '\n' ∉ x) (hy : ':' ∉ y) : colonLines (x ++ y) ≤ 1 := by
  obtain ⟨first, more, hmore, hsplit⟩ := splitOn_append_of_not_mem hx y
  have hzero : more.countP (fun p => ':' ∈ p) = 0 := by
    rw [List.countP_eq_zero]
    intro p hp
    have hmem := mem_of_mem_splitOn (hmore ▸ List.mem_cons_of_mem first hp) ':'
    simpa using fun hcolon => hy (hmem hcolon)
  rw [colonLines, hsplit, List.countP_cons, hzero]
  split <;> omega

end WebPipe
