import WebPipe.Lemmas.Tokens

/-!
# Comment skipping

`skip_ws_and_comments` finds the end of a comment as a byte offset and takes as many characters. On a comment that is not ASCII it takes
characters of the text after it, or runs out of text. `comments_skipped_iff` is exact about it.
-/

namespace WebPipe
namespace Parser

open Nom

/-! ## Blanks -/

/-- A text made of white space and comments, before another text: a comment goes to the end of its line, and the last one may go to the end
of the whole text. -/
inductive Blank : List Char → List Char → Prop
  | nil (rest : List Char) : Blank [] rest
  | space {c : Char} {pre rest : List Char} (hc : isMultispace c = true) (h : Blank pre rest) : Blank (c :: pre) rest
  | comment {text pre rest : List Char} (htext : '\n' ∉ text) (h : Blank pre rest) : Blank ('#' :: (text ++ '\n' :: pre)) rest
  | last {text : List Char} (htext : '\n' ∉ text) : Blank ('#' :: text) []

/-- The rest of a text after its longest blank prefix. -/
def IsRest (l rest : List Char) : Prop :=
  (∃ pre, l = pre ++ rest ∧ Blank pre rest) ∧ ∀ pre' rest', l = pre' ++ rest' → Blank pre' rest' → rest <:+ rest'

/-- What is left of a text after its blanks, from inside a comment or not. -/
def blankRest : Bool → List Char → List Char
  | _, [] => []
  | true, c :: l => if c = '\n' then blankRest false l else blankRest true l
  | false, c :: l => if isMultispace c then blankRest false l else if c = '#' then blankRest true l else c :: l

theorem blankRest_hash (l : List Char) : blankRest false ('#' :: l) = blankRest true l := rfl

/-- What is left is an end of the text. -/
theorem blankRest_suffix (b : Bool) (l : List Char) : blankRest b l <:+ l := by
  induction l generalizing b with
  | nil => cases b <;> exact List.suffix_rfl
  | cons c l ih =>
    cases b with
    | true =>
      unfold blankRest
      split
      · exact (ih false).trans (List.suffix_cons ..)
      · exact (ih true).trans (List.suffix_cons ..)
    | false =>
      unfold blankRest
      split
      · exact (ih false).trans (List.suffix_cons ..)
      · split
        · exact (ih true).trans (List.suffix_cons ..)
        · exact List.suffix_rfl

/-- A comment is passed to the end of its line. -/
theorem blankRest_comment {text l : List Char} (h : '\n' ∉ text) : blankRest true (text ++ '\n' :: l) = blankRest false l := by
  induction text with
  | nil => simp [blankRest]
  | cons c text ih =>
    have hc : c ≠ '\n' := fun he => h (by simp [he])
    rw [List.cons_append, blankRest, if_neg hc]
    exact ih fun hm => h (List.mem_cons_of_mem _ hm)

/-- The last comment is passed to the end of the text. -/
theorem blankRest_last {text : List Char} (h : '\n' ∉ text) : blankRest true text = [] := by
  induction text with
  | nil => rfl
  | cons c text ih =>
    have hc : c ≠ '\n' := fun he => h (by simp [he])
    rw [blankRest, if_neg hc]
    exact ih fun hm => h (List.mem_cons_of_mem _ hm)

/-- Blanks are passed. -/
theorem Blank.blankRest_append {pre rest : List Char} (h : Blank pre rest) : blankRest false (pre ++ rest) = blankRest false rest := by
  induction h with
  | nil rest => rfl
  | space hc h ih =>
    rw [List.cons_append, blankRest, if_pos hc]
    exact ih
  | comment htext h ih =>
    rw [List.cons_append, blankRest_hash, List.append_assoc, List.cons_append, blankRest_comment htext]
    exact ih
  | last htext =>
    rw [List.append_nil, blankRest_hash, blankRest_last htext]
    rfl

/-- From inside a comment there is text to the end of its line, or of the whole text. -/
theorem comment_split (l : List Char) : '\n' ∉ l ∨ ∃ text l', l = text ++ '\n' :: l' ∧ '\n' ∉ text := by
  by_cases h : '\n' ∈ l
  · exact Or.inr (List.eq_append_cons_of_mem h |>.imp fun text ⟨l', hl, ht⟩ => ⟨l', hl, ht⟩)
  · exact Or.inl h

/-- What is passed is blank. -/
theorem exists_blank (l : List Char) : ∃ pre, l = pre ++ blankRest false l ∧ Blank pre (blankRest false l) := by
  induction hn : l.length using Nat.strongRecOn generalizing l with
  | ind n ih =>
    cases l with
    | nil => exact ⟨[], rfl, .nil _⟩
    | cons c l =>
      by_cases hc : isMultispace c = true
      · obtain ⟨pre, hl, hpre⟩ := ih l.length (by simp at hn; omega) l rfl
        rw [blankRest, if_pos hc]
        exact ⟨c :: pre, congrArg (c :: ·) hl, .space hc hpre⟩
      · by_cases hhash : c = '#'
        · rw [blankRest, if_neg hc, if_pos hhash, hhash]
          rcases comment_split l with htext | ⟨text, l', rfl, htext⟩
          · rw [blankRest_last htext]
            exact ⟨'#' :: l, (List.append_nil _).symm, .last htext⟩
          · obtain ⟨pre, hl, hpre⟩ := ih l'.length (by simp at hn; omega) l' rfl
            rw [blankRest_comment htext]
            refine ⟨'#' :: (text ++ '\n' :: pre), ?_, .comment htext hpre⟩
            rw [List.cons_append, List.append_assoc, List.cons_append, ← hl]
        · rw [blankRest, if_neg hc, if_neg hhash]
          exact ⟨[], rfl, .nil _⟩

/-- The longest blank prefix is the one that is passed. -/
theorem isRest_iff {l rest : List Char} : IsRest l rest ↔ rest = blankRest false l := by
  have hle : ∀ {pre' rest'}, l = pre' ++ rest' → Blank pre' rest' → blankRest false l <:+ rest' := by
    rintro pre' rest' rfl h
    rw [h.blankRest_append]
    exact blankRest_suffix ..
  constructor
  · rintro ⟨⟨pre, hl, hpre⟩, hlongest⟩
    obtain ⟨pre', hl', hpre'⟩ := exists_blank l
    exact (hlongest pre' _ hl' hpre').eq_of_length_le (hle hl hpre).length_le
  · rintro rfl
    exact ⟨exists_blank l, fun pre' rest' hl h => hle hl h⟩

/-! ## The scanner -/

/-- The scanner stays on blanks: it comes to no comment; or the text of the comment it comes to has no extra bytes and ends the whole text;
or the line after the comment has as many characters as the comment has extra bytes, without them its longest blank prefix ends at the
same place, and the scanner stays on blanks from there. -/
inductive StaysOnBlanks : List Char → Prop
  | text {l : List Char} (h : (l.dropWhile isMultispace).head? ≠ some '#') : StaysOnBlanks l
  | last {l text : List Char} (h : l.dropWhile isMultispace = '#' :: text) (htext : '\n' ∉ text) (hextra : extraBytes text = 0) :
      StaysOnBlanks l
  | line {l text rest : List Char} (h : l.dropWhile isMultispace = '#' :: (text ++ '\n' :: rest)) (htext : '\n' ∉ text)
      (hextra : extraBytes text ≤ rest.length)
      (hsame : blankRest false (rest.drop (extraBytes text)) = blankRest false rest)
      (hstays : StaysOnBlanks (rest.drop (extraBytes text))) : StaysOnBlanks l

/-- White space is passed. -/
theorem blankRest_dropWhile (l : List Char) : blankRest false (l.dropWhile isMultispace) = blankRest false l := by
  induction l with
  | nil => rfl
  | cons c l ih =>
    by_cases hc : isMultispace c = true
    · rw [List.dropWhile_cons_of_pos hc, ih, blankRest, if_pos hc]
    · rw [List.dropWhile_cons_of_neg hc]

/-- The end of the line is found after the bytes of the comment. -/
theorem find_newline_of_mem {text rest : List Char} (h : '\n' ∉ text) :
    find '\n' ('#' :: (text ++ '\n' :: rest)) = some (1 + utf8Len text) := by
  have htake : ('#' :: (text ++ '\n' :: rest)).takeWhile (· != '\n') = '#' :: text := by
    have hall : ∀ c ∈ '#' :: text, (c != '\n') = true := by
      intro c hc
      rcases List.mem_cons.mp hc with rfl | hc
      · decide
      · exact bne_iff_ne.mpr fun he => h (he ▸ hc)
    exact (takeWhile_append_of hall fun c l' hl => by cases hl; rfl).1
  unfold find
  rw [if_pos (by simp), htake, utf8Len_cons]
  rfl

/-- The last line has no end. -/
theorem find_newline_of_notMem {text : List Char} (h : '\n' ∉ text) : find '\n' ('#' :: text) = none :=
  if_neg (by simp [h])

/-- One turn of the loop that comes to the last comment. -/
theorem skipLoop_last {l text : List Char} (h : l.dropWhile isMultispace = '#' :: text) (htext : '\n' ∉ text) (n : Nat) :
    skipLoop (n + 1) l = if extraBytes text = 0 then skipLoop n [] else .error .error := by
  have hle := length_le_utf8Len text
  rw [skipLoop, bind_of_ok rfl, bind_of_ok rfl, h, List.head?_cons, if_pos rfl, find_newline_of_notMem htext]
  dsimp only
  unfold extraBytes
  by_cases hextra : utf8Len text - text.length = 0
  · have hlen : utf8Len ('#' :: text) = ('#' :: text).length := by
      rw [utf8Len_cons, List.length_cons, show ('#' : Char).utf8Size = 1 from rfl]
      omega
    have htake : take (utf8Len ('#' :: text)) ('#' :: text) = .ok ('#' :: text, []) := by simp [take, hlen]
    rw [if_pos hextra, bind_of_ok htake]
  · have htake : take (utf8Len ('#' :: text)) ('#' :: text) = .error .error := by
      refine if_neg ?_
      rw [utf8Len_cons, List.length_cons, show ('#' : Char).utf8Size = 1 from rfl]
      omega
    rw [if_neg hextra, bind_of_error htake]

/-- One turn of the loop that comes to a comment before another line. -/
theorem skipLoop_line {l text rest : List Char} (h : l.dropWhile isMultispace = '#' :: (text ++ '\n' :: rest)) (htext : '\n' ∉ text)
    (n : Nat) :
    skipLoop (n + 1) l =
      if extraBytes text ≤ rest.length then skipLoop n (rest.drop (extraBytes text)) else .error .error := by
  have hle := length_le_utf8Len text
  rw [skipLoop, bind_of_ok rfl, bind_of_ok rfl, h, List.head?_cons, if_pos rfl, find_newline_of_mem htext]
  dsimp only
  have hcount : 1 + utf8Len text + 1 = ('#' :: (text ++ ['\n'])).length + extraBytes text := by
    unfold extraBytes
    simp
    omega
  have hsplit : '#' :: (text ++ '\n' :: rest) = '#' :: (text ++ ['\n']) ++ rest := by simp
  rw [hcount, hsplit]
  by_cases hextra : extraBytes text ≤ rest.length
  · have htake : take (('#' :: (text ++ ['\n'])).length + extraBytes text) ('#' :: (text ++ ['\n']) ++ rest) =
        .ok ('#' :: (text ++ ['\n']) ++ rest.take (extraBytes text), rest.drop (extraBytes text)) := by
      unfold take
      rw [if_pos (by rw [List.length_append]; omega), List.take_length_add_append, List.drop_length_add_append]
    rw [if_pos hextra, bind_of_ok htake]
  · have htake : take (('#' :: (text ++ ['\n'])).length + extraBytes text) ('#' :: (text ++ ['\n']) ++ rest) = .error .error := by
      refine if_neg ?_
      rw [List.length_append]
      omega
    rw [if_neg hextra, bind_of_error htake]

/-- What the three kinds of turns mean for the longest blank prefix. -/
theorem blankRest_of_text {l : List Char} (h : (l.dropWhile isMultispace).head? ≠ some '#') :
    blankRest false l = l.dropWhile isMultispace := by
  rw [← blankRest_dropWhile]
  cases hd : l.dropWhile isMultispace with
  | nil => rfl
  | cons c l' =>
    have hspace : isMultispace c = false := by
      have hhead := List.head?_dropWhile_not isMultispace l
      rw [hd] at hhead
      simpa using hhead
    have hhash : c ≠ '#' := fun he => h (by rw [hd, he]; rfl)
    rw [blankRest, hspace, if_neg Bool.false_ne_true, if_neg hhash]

/-- A comment on the last line goes to the end. -/
theorem blankRest_of_last {l text : List Char} (h : l.dropWhile isMultispace = '#' :: text) (htext : '\n' ∉ text) :
    blankRest false l = [] := by
  rw [← blankRest_dropWhile, h, blankRest_hash, blankRest_last htext]

/-- A comment goes to the end of its line. -/
theorem blankRest_of_line {l text rest : List Char} (h : l.dropWhile isMultispace = '#' :: (text ++ '\n' :: rest)) (htext : '\n' ∉ text) :
    blankRest false l = blankRest false rest := by
  rw [← blankRest_dropWhile, h, blankRest_hash, blankRest_comment htext]

theorem skipLoop_nil (n : Nat) : skipLoop (n + 1) [] = .ok ((), []) := skipLoop_text (by simp) n

/-- A scanner that stays on blanks passes the longest blank prefix. -/
theorem StaysOnBlanks.skipLoop_eq {l : List Char} (h : StaysOnBlanks l) {n : Nat} (hn : l.length < n) :
    skipLoop n l = .ok ((), blankRest false l) := by
  induction h generalizing n with
  | text h =>
    obtain ⟨n, rfl⟩ := Nat.exists_eq_add_of_lt hn
    rw [skipLoop_text h, blankRest_of_text h]
  | @last l text h htext hextra =>
    have hlen := (List.dropWhile_suffix isMultispace (l := l)).length_le
    rw [h, List.length_cons] at hlen
    obtain ⟨n, rfl⟩ : ∃ m, n = m + 2 := ⟨n - 2, by omega⟩
    rw [skipLoop_last h htext, if_pos hextra, skipLoop_nil, blankRest_of_last h htext]
  | @line l text rest h htext hextra hsame hstays ih =>
    have hlen := (List.dropWhile_suffix isMultispace (l := l)).length_le
    rw [h, List.length_cons, List.length_append, List.length_cons] at hlen
    obtain ⟨n, rfl⟩ : ∃ m, n = m + 1 := ⟨n - 1, by omega⟩
    have hdrop : (rest.drop (extraBytes text)).length < n := by
      rw [List.length_drop]
      omega
    rw [skipLoop_line h htext, if_pos hextra, ih hdrop, hsame, blankRest_of_line h htext]

/-! ## Leaving the blanks -/

/-- Inside a comment, either the longest blank prefix from here ends where the comment's does, or there is text before. -/
theorem inside_comment (l : List Char) :
    blankRest true l = blankRest false l ∨
      ∃ c l', l.dropWhile isMultispace = c :: l' ∧ c ≠ '#' ∧ blankRest true l <:+ l' := by
  induction l with
  | nil => exact Or.inl rfl
  | cons a l ih =>
    by_cases hnewline : a = '\n'
    · exact Or.inl (by rw [hnewline]; rfl)
    · by_cases hspace : isMultispace a = true
      · rw [List.dropWhile_cons_of_pos hspace, blankRest, if_neg hnewline, blankRest, if_pos hspace]
        exact ih
      · by_cases hhash : a = '#'
        · exact Or.inl (by rw [hhash]; rfl)
        · refine Or.inr ⟨a, l, List.dropWhile_cons_of_neg hspace, hhash, ?_⟩
          rw [blankRest, if_neg hnewline]
          exact blankRest_suffix ..

/-- A place in a text is before the end of its longest blank prefix, inside a comment or not, or after it. -/
theorem blankRest_append (b : Bool) (l l' : List Char) :
    (∃ b', blankRest b (l ++ l') = blankRest b' l') ∨ l'.length < (blankRest b (l ++ l')).length := by
  induction l generalizing b with
  | nil => exact Or.inl ⟨b, rfl⟩
  | cons c l ih =>
    rw [List.cons_append]
    cases b with
    | true =>
      rw [blankRest]
      split
      · exact ih false
      · exact ih true
    | false =>
      rw [blankRest]
      split
      · exact ih false
      · split
        · exact ih true
        · refine Or.inr ?_
          rw [List.length_cons, List.length_append]
          omega

/-- A scanner that ends where the longest blank prefix of a text does, from a place in the text, was before that end and not inside a
comment with more text. -/
theorem blankRest_drop {rest : List Char} {k n : Nat} (h : skipLoop n (rest.drop k) = .ok ((), blankRest false rest)) :
    blankRest false (rest.drop k) = blankRest false rest := by
  have hsuffix := suffix_skipLoop n _ _ _ h
  rcases blankRest_append false (rest.take k) (rest.drop k) with ⟨b, hb⟩ | hafter
  · rw [List.take_append_drop] at hb
    cases b with
    | false => exact hb.symm
    | true =>
      rcases inside_comment (rest.drop k) with hsame | ⟨c, l', hd, hhash, hbehind⟩
      · rw [← hsame, hb]
      · exfalso
        obtain ⟨m, rfl⟩ : ∃ m, n = m + 1 := by
          cases n with
          | zero => cases h
          | succ m => exact ⟨m, rfl⟩
        rw [skipLoop_text (by rw [hd, List.head?_cons]; exact fun he => hhash (Option.some.inj he)), hd, hb] at h
        have hlen := hbehind.length_le
        rw [← (Prod.mk.inj (Except.ok.inj h)).2, List.length_cons] at hlen
        omega
  · rw [List.take_append_drop] at hafter
    have hlen := hsuffix.length_le
    omega

/-- A scanner that passes the longest blank prefix stays on blanks. -/
theorem staysOnBlanks_of_skipLoop {l : List Char} {n : Nat} (h : skipLoop n l = .ok ((), blankRest false l)) : StaysOnBlanks l := by
  induction n generalizing l with
  | zero => cases h
  | succ n ih =>
    cases hd : l.dropWhile isMultispace with
    | nil => exact .text (by rw [hd]; exact nofun)
    | cons c l' =>
      by_cases hc : c = '#'
      · subst hc
        rcases comment_split l' with htext | ⟨text, rest, rfl, htext⟩
        · rw [skipLoop_last hd htext] at h
          split at h
          · next hextra => exact .last hd htext hextra
          · cases h
        · rw [skipLoop_line hd htext, blankRest_of_line hd htext] at h
          split at h
          · next hextra =>
            have hsame := blankRest_drop h
            exact .line hd htext hextra hsame (ih (by rw [h, hsame]))
          · cases h
      · exact .text (by rw [hd, List.head?_cons]; exact fun he => hc (Option.some.inj he))

/-- The scanner passes exactly the longest blank prefix of a text when, at every comment that it comes to, the extra bytes of the comment
keep it on blanks. -/
theorem comments_skipped_iff (l : List Char) :
    (∃ rest, skipWsAndComments l = .ok ((), rest) ∧ IsRest l rest) ↔ StaysOnBlanks l := by
  unfold skipWsAndComments
  constructor
  · rintro ⟨rest, hskip, hrest⟩
    rw [isRest_iff] at hrest
    rw [hrest] at hskip
    exact staysOnBlanks_of_skipLoop hskip
  · intro h
    exact ⟨_, h.skipLoop_eq (Nat.lt_succ_self _), isRest_iff.mpr rfl⟩

/-- A comment of one letter of two bytes takes the first character of the step after it. -/
theorem accented_comment_takes_text :
    ¬ ∀ l : List Char, ∃ rest, skipWsAndComments l = .ok ((), rest) ∧ IsRest l rest := by
  intro h
  obtain ⟨rest, hskip, hrest⟩ := h "#é\n|> jq".toList
  rw [isRest_iff] at hrest
  rw [hrest] at hskip
  revert hskip
  decide +kernel

end Parser
end WebPipe
