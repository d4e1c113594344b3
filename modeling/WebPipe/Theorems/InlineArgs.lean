import Mathlib.Tactic.SplitIfs
import WebPipe.Parser.InlineArgs

/-!
# Inline arguments

The index of the closing bracket is a number of bytes and is taken as a number of characters, so that arguments that are not ASCII take
the text after them. `inline_args_iff` is exact about it. Depths are integers here; by `inline_args_i32` the `i32` of the source count the
same on any text that a parser is given in practice.
-/

namespace WebPipe
namespace Parser

open Nom

/-! ## Depths -/

section Depths

variable {δ : Type} [OfNat δ 0] [OfNat δ 1] [Add δ] [Sub δ] [DecidableEq δ] {ofInt : Int → δ} {bound : Nat}

/-- A type counts depths below a bound as the integers do. -/
structure CountsDepth (ofInt : Int → δ) (bound : Nat) : Prop where
  zero : ofInt 0 = 0
  add_one : ∀ d, ofInt (d + 1) = ofInt d + 1
  sub_one : ∀ d, ofInt (d - 1) = ofInt d - 1
  eq_zero : ∀ d : Int, d.natAbs < bound → (ofInt d = 0 ↔ d = 0)

/-- The integers count every depth. -/
theorem countsDepth_int (bound : Nat) : CountsDepth (fun d : Int => d) bound :=
  ⟨rfl, fun _ => rfl, fun _ => rfl, fun _ _ => Iff.rfl⟩

/-- An `i32` counts depths of 31 bits. -/
theorem countsDepth_i32 : CountsDepth (BitVec.ofInt 32) (2 ^ 31) where
  zero := rfl
  add_one d := by
    apply BitVec.eq_of_toInt_eq
    simp
  sub_one d := by
    apply BitVec.eq_of_toInt_eq
    simp
  eq_zero d hd := by
    rw [← BitVec.toInt_inj]
    simp
    constructor
    · intro h
      rw [Int.bmod_eq_of_le (by omega) (by omega)] at h
      exact h
    · rintro rfl
      rfl

/-- The scan for the closing bracket with depths of a type is the one with natural numbers. -/
theorem CountsDepth.findClosing (h : CountsDepth ofInt bound) (openChar : Char) {l : List Char} {d : Nat} (hd : d + l.length < bound)
    (inString escapeNext : Bool) (idx : Nat) :
    findClosing openChar (ofInt d) inString escapeNext idx l = findClosing openChar d inString escapeNext idx l := by
  induction l generalizing d inString escapeNext idx with
  | nil => rfl
  | cons ch l ih =>
    rw [List.length_cons] at hd
    have hsame : ∀ inString escapeNext idx, Parser.findClosing openChar (ofInt d) inString escapeNext idx l =
        Parser.findClosing openChar d inString escapeNext idx l := fun _ _ _ => ih (by omega) _ _ _
    have hdown : Parser.findClosing openChar (ofInt d + 1) inString false (idx + ch.utf8Size) l =
        Parser.findClosing openChar (d + 1) inString false (idx + ch.utf8Size) l := by
      rw [← h.add_one]
      exact ih (d := d + 1) (by omega) _ _ _
    simp only [Parser.findClosing, hsame, hdown]
    cases d with
    | zero => simp [h.zero]
    | succ d =>
      have hne : ¬ ofInt (d + 1 : Nat) = 0 := by
        rw [h.eq_zero _ (by omega)]
        omega
      have hup : Parser.findClosing openChar (ofInt (d + 1 : Nat) - 1) inString false (idx + ch.utf8Size) l =
          Parser.findClosing openChar d inString false (idx + ch.utf8Size) l := by
        have hpred : ((d + 1 : Nat) : Int) - 1 = d := by omega
        rw [← h.sub_one, hpred]
        exact ih (by omega) _ _ _
      simp only [hne, if_false, hup, Nat.succ_ne_zero, Nat.add_sub_cancel]

/-- A state of the loop of `split_balanced_args` with its depth in another type. -/
def SplitState.castDepth (ofInt : Int → δ) (s : SplitState Int) : SplitState δ :=
  { args := s.args, currentArg := s.currentArg, depth := ofInt s.depth, inString := s.inString, escapeNext := s.escapeNext }

/-- One character leaves the depth or changes it by one, and does so in the other type too. -/
theorem CountsDepth.splitStep (h : CountsDepth ofInt bound) {s : SplitState Int} (hs : s.depth.natAbs < bound) (ch : Char) :
    splitStep (s.castDepth ofInt) ch = (splitStep s ch).castDepth ofInt ∧ (splitStep s ch).depth.natAbs ≤ s.depth.natAbs + 1 := by
  have hzero := h.eq_zero _ hs
  unfold Parser.splitStep SplitState.castDepth
  dsimp only
  simp only [hzero]
  split_ifs
  · exact ⟨rfl, Nat.le_succ _⟩
  · exact ⟨rfl, Nat.le_succ _⟩
  · exact ⟨rfl, Nat.le_succ _⟩
  · exact ⟨by simp only [h.add_one], by dsimp only; omega⟩
  · exact ⟨by simp only [h.sub_one], by dsimp only; omega⟩
  · exact ⟨rfl, Nat.le_succ _⟩
  · exact ⟨rfl, Nat.le_succ _⟩

/-- A scan that stays below the bound is the same in the other type. -/
theorem CountsDepth.foldl_splitStep (h : CountsDepth ofInt bound) {l : List Char} {s : SplitState Int}
    (hs : s.depth.natAbs + l.length < bound) :
    l.foldl Parser.splitStep (s.castDepth ofInt) = (l.foldl Parser.splitStep s).castDepth ofInt := by
  induction l generalizing s with
  | nil => rfl
  | cons ch l ih =>
    rw [List.length_cons] at hs
    obtain ⟨hstep, hdepth⟩ := h.splitStep (s := s) (by omega) ch
    rw [List.foldl_cons, List.foldl_cons, hstep, ih (by omega)]

/-- The arguments between the brackets are the same with depths of another type. -/
theorem CountsDepth.splitBalancedArgs (h : CountsDepth ofInt bound) {content : List Char} (hl : content.length < bound) :
    splitBalancedArgsIn δ content = Parser.splitBalancedArgs content := by
  have hstart : ({} : SplitState δ) = SplitState.castDepth ofInt {} := by simp [SplitState.castDepth, h.zero]
  unfold Parser.splitBalancedArgs splitBalancedArgsIn
  rw [hstart, h.foldl_splitStep (by simpa using hl)]
  rfl

theorem length_takeBytes_le (n : Nat) (l : List Char) : (takeBytes n l).length ≤ l.length := by
  induction l generalizing n with
  | nil => simp [takeBytes]
  | cons c l ih =>
    rw [takeBytes]
    split
    · simpa using ih (n - c.utf8Size)
    · simp

/-- With depths of another type the parser is the same on texts that are short enough. -/
theorem CountsDepth.parseInlineArgs (h : CountsDepth ofInt bound) {l : List Char} (hl : l.length < bound) :
    parseInlineArgsIn δ l = Parser.parseInlineArgs l := by
  unfold Parser.parseInlineArgs parseInlineArgsIn
  have hrest : ∀ l, Nom.rest l = .ok (l, l) := fun _ => rfl
  rw [bind_of_ok (hrest l), bind_of_ok (hrest l)]
  dsimp only
  split
  · rfl
  · generalize (if (l.dropWhile Text.isWhitespace).head? = some '(' then '(' else '[') = openChar
    cases hchar : char openChar l with
    | error e => rw [bind_of_error hchar, bind_of_error hchar]
    | ok p =>
      obtain ⟨u, l'⟩ := p
      have hlength : l'.length < bound := by
        rw [char_eq_ok hchar, List.length_cons] at hl
        omega
      have hfind : Parser.findClosing openChar (0 : δ) false false 0 l' = Parser.findClosing openChar (0 : Nat) false false 0 l' := by
        rw [← h.zero]
        exact h.findClosing openChar (d := 0) (by omega) false false 0
      have hints : Parser.findClosing openChar (0 : Int) false false 0 l' = Parser.findClosing openChar (0 : Nat) false false 0 l' :=
        (countsDepth_int bound).findClosing openChar (d := 0) (by omega) false false 0
      rw [bind_of_ok hchar, bind_of_ok hchar, bind_of_ok (hrest l'), bind_of_ok (hrest l'), hfind, hints]
      cases Parser.findClosing openChar (0 : Nat) false false 0 l' with
      | none => rfl
      | some endPos =>
        have hsplit := h.splitBalancedArgs (lt_of_le_of_lt (length_takeBytes_le endPos l') hlength)
        unfold Parser.splitBalancedArgs at hsplit
        dsimp only
        rw [hsplit]

/-- With `i32` depths, as in the source, a text of fewer than 2³¹ characters is split, and its arguments are parsed, as with integers. -/
theorem inline_args_i32 {l : List Char} (hl : l.length < 2 ^ 31) :
    splitBalancedArgsIn (BitVec 32) l = Parser.splitBalancedArgs l ∧ parseInlineArgsIn (BitVec 32) l = Parser.parseInlineArgs l :=
  ⟨countsDepth_i32.splitBalancedArgs hl, countsDepth_i32.parseInlineArgs hl⟩

end Depths

/-! ## Matching brackets -/

/-- The inside of a string: a backslash escapes the character after it. -/
inductive InString : List Char → Prop
  | nil : InString []
  | char {a : Char} {s : List Char} (hquote : a ≠ '"') (hescape : a ≠ '\\') (h : InString s) : InString (a :: s)
  | escape (a : Char) {s : List Char} (h : InString s) : InString ('\\' :: a :: s)

/-- A text in which every bracket of a kind is matched; brackets in strings do not count. -/
inductive Balanced (openChar : Char) : List Char → Prop
  | nil : Balanced openChar []
  | char {a : Char} {l : List Char} (hquote : a ≠ '"') (hopen : a ≠ openChar) (hclose : a ≠ closeChar openChar)
      (h : Balanced openChar l) : Balanced openChar (a :: l)
  | string {s l : List Char} (hs : InString s) (h : Balanced openChar l) : Balanced openChar ('"' :: (s ++ '"' :: l))
  | nested {m l : List Char} (hm : Balanced openChar m) (h : Balanced openChar l) :
      Balanced openChar (openChar :: (m ++ closeChar openChar :: l))

/-- A text starts with a bracket that is closed, around some content. -/
structure ClosedAt (l : List Char) (openChar : Char) (content rest : List Char) : Prop where
  bracket : openChar = '(' ∨ openChar = '['
  text : l = openChar :: (content ++ closeChar openChar :: rest)
  balanced : Balanced openChar content

/-! ## The scan -/

section Scan

variable {openChar : Char}

/-- A bracket is no quote, and is not closed by itself. -/
theorem bracket_ne (h : openChar = '(' ∨ openChar = '[') :
    openChar ≠ '"' ∧ closeChar openChar ≠ '"' ∧ openChar ≠ closeChar openChar := by
  rcases h with rfl | rfl <;> decide

/-- The scan passes a string. -/
theorem findClosing_string {s : List Char} (hs : InString s) (depth idx : Nat) (l : List Char) :
    findClosing openChar depth true false idx (s ++ '"' :: l) = findClosing openChar depth false false (idx + utf8Len s + 1) l := by
  induction hs generalizing idx with
  | nil => simp [findClosing, utf8Len, show ('"' : Char).utf8Size = 1 from rfl]
  | @char a s hquote hescape h ih =>
    rw [List.cons_append, findClosing]
    simp only [Bool.false_eq_true, if_false, hescape, false_and, hquote, Bool.true_eq_false, and_false]
    rw [ih, utf8Len_cons, Nat.add_assoc idx]
  | @escape a s h ih =>
    rw [List.cons_append, List.cons_append, findClosing]
    simp only [Bool.false_eq_true, if_false, and_self, if_true]
    rw [findClosing]
    simp only [if_true]
    rw [ih, utf8Len_cons, utf8Len_cons]
    congr 1
    omega

/-- The scan passes balanced text. -/
theorem findClosing_balanced (hb : openChar = '(' ∨ openChar = '[') {m : List Char} (hm : Balanced openChar m) (depth idx : Nat)
    (l : List Char) :
    findClosing openChar depth false false idx (m ++ l) = findClosing openChar depth false false (idx + utf8Len m) l := by
  obtain ⟨hoq, hcq, hoc⟩ := bracket_ne hb
  induction hm generalizing depth idx l with
  | nil => simp [utf8Len]
  | @char a m hquote hopen hclose h ih =>
    rw [List.cons_append, findClosing]
    simp only [Bool.false_eq_true, if_false, and_false, hquote, hopen, hclose, false_and]
    rw [ih, utf8Len_cons, Nat.add_assoc]
  | @string s m hs h ih =>
    rw [List.cons_append, List.append_assoc, List.cons_append, findClosing]
    simp only [Bool.false_eq_true, if_false, and_false, if_true, Bool.not_false]
    rw [findClosing_string hs, ih, utf8Len_cons, utf8Len_append, utf8Len_cons, show ('"' : Char).utf8Size = 1 from rfl]
    congr 1
    omega
  | @nested m m' hm h ihm ih =>
    rw [List.cons_append, List.append_assoc, List.cons_append, findClosing]
    simp only [Bool.false_eq_true, if_false, and_false, if_true, and_self, hoq]
    rw [ihm, findClosing]
    simp only [Bool.false_eq_true, if_false, and_false, if_true, and_self, hcq, hoc.symm, false_and, Nat.succ_ne_zero,
      Nat.add_sub_cancel]
    rw [ih, utf8Len_cons, utf8Len_append, utf8Len_cons]
    congr 1
    omega

/-- A scan at a depth ends at the closing bracket after as many others. -/
inductive Closes (openChar : Char) : Nat → List Char → Prop
  | zero {m : List Char} (hm : Balanced openChar m) : Closes openChar 0 m
  | succ {d : Nat} {m l : List Char} (hm : Balanced openChar m) (h : Closes openChar d l) :
      Closes openChar (d + 1) (m ++ closeChar openChar :: l)

/-- What may stand before balanced text may stand before closing text. -/
theorem Closes.prepend {x : List Char} (hx : ∀ m, Balanced openChar m → Balanced openChar (x ++ m)) {d : Nat} {l : List Char}
    (h : Closes openChar d l) : Closes openChar d (x ++ l) := by
  cases h with
  | zero hm => exact .zero (hx _ hm)
  | succ hm h =>
    rw [← List.append_assoc]
    exact .succ (hx _ hm) h

/-- From inside a string the scan passes the rest of it first. -/
def AfterString (openChar : Char) (depth : Nat) (m : List Char) : Prop :=
  ∃ s m', m = s ++ '"' :: m' ∧ InString s ∧ Closes openChar depth m'

/-- A quotation mark opens a string, which is closed before the scan ends. -/
theorem AfterString.quote {d : Nat} {m : List Char} (h : AfterString openChar d m) : Closes openChar d ('"' :: m) := by
  obtain ⟨s, m', rfl, hs, hm⟩ := h
  have hcloses := hm.prepend (x := '"' :: (s ++ ['"'])) fun m hm => by
    rw [List.cons_append, List.append_assoc]
    exact .string hs hm
  rwa [List.cons_append, List.append_assoc] at hcloses

/-- What may stand in a string may be put before the rest of it. -/
theorem AfterString.cons {d : Nat} {x m : List Char} (hx : ∀ s, InString s → InString (x ++ s)) (h : AfterString openChar d m) :
    AfterString openChar d (x ++ m) := by
  obtain ⟨s, m', rfl, hs, hm⟩ := h
  exact ⟨x ++ s, m', (List.append_assoc ..).symm, hx s hs, hm⟩

/-- An opening bracket is closed by one more. -/
theorem Closes.nest {d : Nat} {m : List Char} (h : Closes openChar (d + 1) m) : Closes openChar d (openChar :: m) := by
  cases h with
  | @succ _ b l hb hl =>
    have hcloses := hl.prepend (x := openChar :: (b ++ [closeChar openChar])) fun m hm => by
      rw [List.cons_append, List.append_assoc]
      exact .nested hb hm
    rwa [List.cons_append, List.append_assoc] at hcloses

/-- Where a scan ends, the text up to there closes the brackets that were open: from outside a string, from inside one, and after a
backslash. -/
theorem closes_of_findClosing (hb : openChar = '(' ∨ openChar = '[') (l : List Char) (depth idx p : Nat) :
    (findClosing openChar depth false false idx l = some p →
      ∃ m rest, l = m ++ closeChar openChar :: rest ∧ p = idx + utf8Len m ∧ Closes openChar depth m) ∧
    (findClosing openChar depth true false idx l = some p →
      ∃ m rest, l = m ++ closeChar openChar :: rest ∧ p = idx + utf8Len m ∧ AfterString openChar depth m) ∧
    (findClosing openChar depth true true idx l = some p →
      ∃ a m rest, l = a :: (m ++ closeChar openChar :: rest) ∧ p = idx + utf8Len (a :: m) ∧ AfterString openChar depth m) := by
  obtain ⟨hoq, hcq, hoc⟩ := bracket_ne hb
  induction l generalizing depth idx with
  | nil => exact ⟨nofun, nofun, nofun⟩
  | cons a l ih =>
    have hcons : ∀ m : List Char, idx + a.utf8Size + utf8Len m = idx + utf8Len (a :: m) := by
      intro m
      rw [utf8Len_cons, Nat.add_assoc]
    refine ⟨fun h => ?_, fun h => ?_, fun h => ?_⟩
    · rw [findClosing] at h
      simp only [Bool.false_eq_true, if_false, and_false, and_true, Bool.not_false] at h
      by_cases hquote : a = '"'
      · rw [if_pos hquote] at h
        obtain ⟨m, rest, rfl, rfl, hm⟩ := (ih depth _).2.1 h
        exact ⟨a :: m, rest, rfl, hcons m, hquote ▸ hm.quote⟩
      · rw [if_neg hquote] at h
        by_cases hopen : a = openChar
        · rw [if_pos hopen] at h
          obtain ⟨m, rest, rfl, rfl, hm⟩ := (ih (depth + 1) _).1 h
          exact ⟨a :: m, rest, rfl, hcons m, hopen ▸ hm.nest⟩
        · rw [if_neg hopen] at h
          by_cases hclose : a = closeChar openChar
          · rw [if_pos hclose] at h
            cases depth with
            | zero =>
              rw [if_pos rfl] at h
              cases h
              exact ⟨[], l, by rw [hclose]; rfl, rfl, .zero .nil⟩
            | succ d =>
              rw [if_neg (Nat.succ_ne_zero d), Nat.add_sub_cancel] at h
              obtain ⟨m, rest, rfl, rfl, hm⟩ := (ih d _).1 h
              refine ⟨a :: m, rest, rfl, hcons m, ?_⟩
              rw [hclose]
              exact .succ .nil hm
          · rw [if_neg hclose] at h
            obtain ⟨m, rest, rfl, rfl, hm⟩ := (ih depth _).1 h
            exact ⟨a :: m, rest, rfl, hcons m, hm.prepend (x := [a]) fun _ hm => .char hquote hopen hclose hm⟩
    · rw [findClosing] at h
      simp only [Bool.false_eq_true, if_false, and_true, Bool.not_true, Bool.true_eq_false, and_false] at h
      by_cases hescape : a = '\\'
      · rw [if_pos hescape] at h
        obtain ⟨b, m, rest, rfl, rfl, hm⟩ := (ih depth _).2.2 h
        refine ⟨a :: b :: m, rest, rfl, hcons _, ?_⟩
        rw [hescape]
        exact hm.cons (x := ['\\', b]) fun s hs => .escape b hs
      · rw [if_neg hescape] at h
        by_cases hquote : a = '"'
        · rw [if_pos hquote] at h
          obtain ⟨m, rest, rfl, rfl, hm⟩ := (ih depth _).1 h
          exact ⟨a :: m, rest, rfl, hcons m, [], m, by rw [hquote]; rfl, .nil, hm⟩
        · rw [if_neg hquote] at h
          obtain ⟨m, rest, rfl, rfl, hm⟩ := (ih depth _).2.1 h
          exact ⟨a :: m, rest, rfl, hcons m, hm.cons (x := [a]) fun s hs => .char hquote hescape hs⟩
    · rw [findClosing] at h
      simp only [if_true] at h
      obtain ⟨m, rest, rfl, rfl, hm⟩ := (ih depth _).2.1 h
      exact ⟨a, m, rest, rfl, hcons m, hm⟩

/-- The scan finds the closing bracket after balanced content, and nothing else. -/
theorem findClosing_eq_some_iff (hb : openChar = '(' ∨ openChar = '[') {l : List Char} {p : Nat} :
    findClosing openChar 0 false false 0 l = some p ↔
      ∃ m rest, l = m ++ closeChar openChar :: rest ∧ Balanced openChar m ∧ p = utf8Len m := by
  constructor
  · intro h
    obtain ⟨m, rest, hl, hp, hm⟩ := (closes_of_findClosing hb l 0 0 p).1 h
    cases hm with
    | zero hm => exact ⟨m, rest, hl, hm, by rw [hp, Nat.zero_add]⟩
  · rintro ⟨m, rest, rfl, hm, rfl⟩
    obtain ⟨hoq, hcq, hoc⟩ := bracket_ne hb
    rw [findClosing_balanced hb hm, findClosing]
    simp [hcq, hoc.symm]

end Scan

/-! ## The parser -/

/-- The bytes of a text are taken from the front. -/
theorem takeBytes_append (m l : List Char) : takeBytes (utf8Len m) (m ++ l) = m := by
  induction m with
  | nil =>
    cases l with
    | nil => rfl
    | cons c l =>
      have hpos := c.utf8Size_pos
      exact if_neg (by simp [utf8Len]; omega)
  | cons c m ih =>
    rw [List.cons_append, takeBytes, utf8Len_cons, if_pos (Nat.le_add_right ..), Nat.add_sub_cancel_left, ih]

/-- A number of bytes taken as a number of characters. -/
theorem take_utf8Len (m : List Char) (c : Char) (rest : List Char) :
    take (utf8Len m + 1) (m ++ c :: rest) =
      if extraBytes m ≤ rest.length then .ok (m ++ c :: rest.take (extraBytes m), rest.drop (extraBytes m)) else .error .error := by
  have hle := length_le_utf8Len m
  have hcount : utf8Len m + 1 = (m ++ [c]).length + extraBytes m := by
    unfold extraBytes
    simp
    omega
  have hsplit : m ++ c :: rest = (m ++ [c]) ++ rest := by simp
  unfold take
  rw [hcount, hsplit, List.take_length_add_append, List.drop_length_add_append, @List.length_append _ (m ++ [c])]
  simp

/-- The first character after the blanks. -/
def firstChar (l : List Char) : Option Char := (l.dropWhile Text.isWhitespace).head?

/-- A step has brackets after its name, directly or after blanks. -/
def HasBracket (l : List Char) : Prop := firstChar l = some '(' ∨ firstChar l = some '['

/-- A bracket is the first character. -/
theorem firstChar_bracket {openChar : Char} (hb : openChar = '(' ∨ openChar = '[') (l : List Char) :
    firstChar (openChar :: l) = some openChar := by
  have hspace : Text.isWhitespace openChar = false := by rcases hb with rfl | rfl <;> decide
  unfold firstChar
  rw [List.dropWhile_cons_of_neg (by simp [hspace])]
  rfl

/-- Without a bracket there are no arguments. -/
theorem parseInlineArgs_of_not {l : List Char} (h : ¬HasBracket l) : parseInlineArgs l = .ok ([], l) := by
  have hfirst : (l.dropWhile Text.isWhitespace).head? ≠ some '(' ∧ (l.dropWhile Text.isWhitespace).head? ≠ some '[' :=
    not_or.mp h
  rw [parseInlineArgs, parseInlineArgsIn, bind_of_ok rfl]
  dsimp only
  rw [if_pos hfirst]
  rfl

/-- With a bracket the parser takes the bracket and scans for its end. -/
theorem parseInlineArgs_of_bracket {openChar : Char} (hb : openChar = '(' ∨ openChar = '[') (l : List Char) :
    parseInlineArgs (openChar :: l) =
      match findClosing openChar 0 false false 0 l with
      | none => .error .error
      | some endPos => (do let _ ← take (endPos + 1); pure (splitBalancedArgs (takeBytes endPos l)) : Parser (List String)) l := by
  have hfirst := firstChar_bracket hb l
  unfold firstChar at hfirst
  rw [parseInlineArgs, parseInlineArgsIn, bind_of_ok rfl, hfirst]
  dsimp only
  have hif : (if some openChar = some '(' then '(' else '[') = openChar := by rcases hb with rfl | rfl <;> rfl
  have hints : findClosing openChar (0 : Int) false false 0 l = findClosing openChar (0 : Nat) false false 0 l :=
    (countsDepth_int (l.length + 1)).findClosing openChar (d := 0) (by omega) false false 0
  rw [if_neg (by rcases hb with rfl | rfl <;> simp), hif, bind_of_ok (char_self ..), bind_of_ok rfl, hints]
  cases findClosing openChar (0 : Nat) false false 0 l with
  | none => rfl
  | some endPos => rfl

/-- After blanks the parser fails at the first of them. -/
theorem parseInlineArgs_of_blank {b : Char} (hb : Text.isWhitespace b = true) {l : List Char} (h : HasBracket (b :: l)) :
    parseInlineArgs (b :: l) = .error .error := by
  have hne : ∀ c, Text.isWhitespace c = false → b ≠ c := by
    rintro c hc rfl
    rw [hb] at hc
    cases hc
  unfold HasBracket firstChar at h
  rw [parseInlineArgs, parseInlineArgsIn, bind_of_ok rfl]
  dsimp only
  rw [if_neg (not_and_or.mpr (h.imp not_not.mpr not_not.mpr))]
  split
  · rw [bind_of_error (char_of_ne (hne '(' rfl) l)]
  · rw [bind_of_error (char_of_ne (hne '[' rfl) l)]

/-- A bracket that is closed: the arguments are those of the content, and what is left is the text after the bracket, less as many
characters as the content has extra bytes. -/
theorem parseInlineArgs_closed {l : List Char} {openChar : Char} {content rest : List Char} (h : ClosedAt l openChar content rest) :
    parseInlineArgs l =
      if extraBytes content ≤ rest.length then .ok (splitBalancedArgs content, rest.drop (extraBytes content))
      else .error .error := by
  have hfind := (findClosing_eq_some_iff h.bracket).mpr ⟨content, rest, rfl, h.balanced, rfl⟩
  rw [h.text, parseInlineArgs_of_bracket h.bracket, hfind]
  dsimp only
  have htake := take_utf8Len content (closeChar openChar) rest
  rw [takeBytes_append]
  split
  · next hle =>
    rw [if_pos hle] at htake
    rw [bind_of_ok htake]
    rfl
  · next hgt =>
    rw [if_neg hgt] at htake
    rw [bind_of_error htake]

/-- A bracket that is never closed is an error. -/
theorem parseInlineArgs_unclosed {openChar : Char} (hb : openChar = '(' ∨ openChar = '[') {l : List Char}
    (h : ∀ content rest, ¬ClosedAt (openChar :: l) openChar content rest) : parseInlineArgs (openChar :: l) = .error .error := by
  rw [parseInlineArgs_of_bracket hb]
  cases hf : findClosing openChar 0 false false 0 l with
  | none => rfl
  | some p =>
    obtain ⟨m, rest, rfl, hm, -⟩ := (findClosing_eq_some_iff hb).mp hf
    exact absurd ⟨hb, rfl, hm⟩ (h m rest)

/-! ## Closed and open brackets -/

/-- A bracket that is closed gives the arguments between the brackets, and what is left is the text after them. -/
def EndsAtBracket (l : List Char) : Prop :=
  ∀ openChar content rest, ClosedAt l openChar content rest → parseInlineArgs l = .ok (splitBalancedArgs content, rest)

/-- A text is closed after blanks: some blanks, and a bracket that is closed. -/
def ClosedAfterBlanks (l : List Char) : Prop :=
  ∃ blanks l' openChar content rest, l = blanks ++ l' ∧ (∀ b ∈ blanks, Text.isWhitespace b = true) ∧ ClosedAt l' openChar content rest

/-- Without a bracket that is closed there are no arguments, and nothing is taken. -/
def LeavesOthers (l : List Char) : Prop := ¬ClosedAfterBlanks l → parseInlineArgs l = .ok ([], l)

/-- A text of characters of one byte. -/
def Ascii (l : List Char) : Prop := ∀ c ∈ l, c.utf8Size = 1

/-- A text has no more bytes than characters exactly when it is ASCII. -/
theorem extraBytes_eq_zero_iff {l : List Char} : extraBytes l = 0 ↔ Ascii l := by
  unfold extraBytes Ascii
  induction l with
  | nil => simp [utf8Len]
  | cons c l ih =>
    have hpos := c.utf8Size_pos
    have hle := length_le_utf8Len l
    rw [utf8Len_cons, List.length_cons, List.forall_mem_cons, ← ih]
    omega

/-- Arguments end at their bracket exactly when they are ASCII. -/
theorem endsAtBracket_iff (l : List Char) :
    EndsAtBracket l ↔ ∀ openChar content rest, ClosedAt l openChar content rest → Ascii content := by
  unfold EndsAtBracket
  constructor
  · intro h openChar content rest hclosed
    have hparse := h _ _ _ hclosed
    rw [parseInlineArgs_closed hclosed] at hparse
    rw [← extraBytes_eq_zero_iff]
    split at hparse
    · next hle =>
      have hrest := congrArg List.length (Prod.mk.inj (Except.ok.inj hparse)).2
      rw [List.length_drop] at hrest
      omega
    · cases hparse
  · intro h openChar content rest hclosed
    have hzero := extraBytes_eq_zero_iff.mpr (h _ _ _ hclosed)
    rw [parseInlineArgs_closed hclosed, hzero, if_pos (Nat.zero_le _), List.drop_zero]

/-- A bracket directly after the name or after blanks. -/
theorem HasBracket.cases {l : List Char} (h : HasBracket l) :
    (∃ b l', l = b :: l' ∧ Text.isWhitespace b = true) ∨ ∃ openChar l', l = openChar :: l' ∧ (openChar = '(' ∨ openChar = '[') := by
  cases l with
  | nil => rcases h with h | h <;> cases h
  | cons c l' =>
    by_cases hc : Text.isWhitespace c = true
    · exact Or.inl ⟨c, l', rfl, hc⟩
    · unfold HasBracket firstChar at h
      rw [List.dropWhile_cons_of_neg hc] at h
      exact Or.inr ⟨c, l', rfl, h.imp Option.some.inj Option.some.inj⟩

/-- What is no bracket is left alone; a bracket that is not closed is not. -/
theorem leavesOthers_iff (l : List Char) : LeavesOthers l ↔ (HasBracket l → ClosedAfterBlanks l) := by
  unfold LeavesOthers
  constructor
  · intro h hbracket
    by_contra hnot
    have hparse := h hnot
    rcases hbracket.cases with ⟨b, l', rfl, hb⟩ | ⟨openChar, l', rfl, hb⟩
    · rw [parseInlineArgs_of_blank hb hbracket] at hparse
      cases hparse
    · have hopen : ∀ content rest, ¬ClosedAt (openChar :: l') openChar content rest := fun content rest hclosed =>
        hnot ⟨[], _, openChar, content, rest, rfl, nofun, hclosed⟩
      rw [parseInlineArgs_unclosed hb hopen] at hparse
      cases hparse
  · intro h hnot
    exact parseInlineArgs_of_not fun hbracket => hnot (h hbracket)

/-- Inline arguments end at the matching bracket, and other texts are left alone, exactly when the content of a bracket that is closed
directly after the name is ASCII, and a bracket directly after the name or after blanks is closed. Without a bracket there are never
arguments. -/
theorem inline_args_iff (l : List Char) :
    (EndsAtBracket l ∧ LeavesOthers l ↔
      (∀ openChar content rest, ClosedAt l openChar content rest → Ascii content) ∧ (HasBracket l → ClosedAfterBlanks l)) ∧
    (¬HasBracket l → parseInlineArgs l = .ok ([], l)) :=
  ⟨and_congr (endsAtBracket_iff l) (leavesOthers_iff l), parseInlineArgs_of_not⟩

/-- An argument of one letter of two bytes takes the colon after the bracket. -/
theorem accented_argument_takes_text : ¬ ∀ l : List Char, EndsAtBracket l ∧ LeavesOthers l := by
  intro h
  have hclosed : ClosedAt "(é): x".toList '(' "é".toList ": x".toList :=
    ⟨Or.inl rfl, rfl, .char (by decide) (by decide) (by decide) .nil⟩
  have hascii := (endsAtBracket_iff _).mp (h _).1 _ _ _ hclosed 'é' (by decide)
  revert hascii
  decide

end Parser
end WebPipe
