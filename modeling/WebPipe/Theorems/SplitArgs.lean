import WebPipe.Theorems.InlineArgs

/-!
# Printed arguments

The printer joins the arguments of a step with commas; `split_balanced_args` takes them apart again. The scan goes over an argument and
comes out of it as it went in, so the only commas it splits at are those of the printer.
-/

namespace WebPipe
namespace Parser

/-- The arguments of a step as `Display` writes them between the brackets. -/
def argsStr (args : List String) : String := ", ".intercalate args

/-- A bracket that opens, of any of the three kinds. -/
def IsOpen (c : Char) : Prop := c = '(' ∨ c = '[' ∨ c = '\x7b'

/-- A bracket that closes, of any of the three kinds. -/
def IsClose (c : Char) : Prop := c = ')' ∨ c = ']' ∨ c = '\x7d'

instance (c : Char) : Decidable (IsOpen c) := inferInstanceAs (Decidable (_ ∨ _))

instance (c : Char) : Decidable (IsClose c) := inferInstanceAs (Decidable (_ ∨ _))

/-- The text of an argument: the brackets and the strings in it are closed, and a comma stands in a string or in brackets. A bracket
may be closed by one of another kind, as the scan does not tell them apart. -/
inductive ArgText : (nested : Bool) → List Char → Prop
  | nil {nested : Bool} : ArgText nested []
  | char {nested : Bool} {a : Char} {l : List Char} (hquote : a ≠ '"') (hopen : ¬IsOpen a) (hclose : ¬IsClose a)
      (hcomma : a = ',' → nested = true) (h : ArgText nested l) : ArgText nested (a :: l)
  | string {nested : Bool} {s l : List Char} (hs : InString s) (h : ArgText nested l) : ArgText nested ('"' :: (s ++ '"' :: l))
  | brackets {nested : Bool} {o c : Char} {m l : List Char} (ho : IsOpen o) (hc : IsClose c) (hm : ArgText true m)
      (h : ArgText nested l) : ArgText nested (o :: (m ++ c :: l))

/-- An argument as the printer gets it: not empty, trimmed, and with everything closed that it opens. -/
structure PrintedArg (arg : String) : Prop where
  ne_empty : arg ≠ ""
  trimmed : Text.trim arg = arg
  text : ArgText false arg.toList

/-! ## The scan of an argument -/

section Scan

/-- Some characters go to the argument that is read, and nothing else changes. -/
def SplitState.push (st : SplitState Int) (l : List Char) : SplitState Int := { st with currentArg := st.currentArg ++ l }

@[simp] theorem SplitState.push_nil (st : SplitState Int) : st.push [] = st := by simp [SplitState.push]

theorem SplitState.push_push (st : SplitState Int) (l l' : List Char) : (st.push l).push l' = st.push (l ++ l') := by
  simp [SplitState.push]

/-- A string is read to its end. -/
theorem foldl_string {s : List Char} (hs : InString s) (st : SplitState Int) (hin : st.inString = true)
    (hescape : st.escapeNext = false) : (s ++ ['"']).foldl splitStep st = { st.push (s ++ ['"']) with inString := false } := by
  induction hs generalizing st with
  | nil => simp [splitStep, hin, hescape, SplitState.push]
  | @char a s hquote hslash h ih =>
    have hstep : splitStep st a = st.push [a] := by simp [splitStep, hin, hescape, hquote, hslash, SplitState.push]
    rw [List.cons_append, List.foldl_cons, hstep, ih (st.push [a]) hin hescape]
    simp [SplitState.push]
  | @escape a s h ih =>
    have hstep : splitStep (splitStep st '\\') a = st.push ['\\', a] := by simp [splitStep, hin, hescape, SplitState.push]
    rw [List.cons_append, List.cons_append, List.foldl_cons, List.foldl_cons, hstep, ih (st.push ['\\', a]) hin hescape]
    simp [SplitState.push]

/-- An opening bracket goes one level down. -/
theorem splitStep_open {o : Char} (ho : IsOpen o) (st : SplitState Int) (hin : st.inString = false) (hescape : st.escapeNext = false) :
    splitStep st o = { st.push [o] with depth := st.depth + 1 } := by
  rcases ho with rfl | rfl | rfl <;> simp [splitStep, hin, hescape, SplitState.push]

/-- A closing bracket goes one level up. -/
theorem splitStep_close {c : Char} (hc : IsClose c) (st : SplitState Int) (hin : st.inString = false)
    (hescape : st.escapeNext = false) : splitStep st c = { st.push [c] with depth := st.depth - 1 } := by
  rcases hc with rfl | rfl | rfl <;> simp [splitStep, hin, hescape, SplitState.push]

/-- The text of an argument goes to the argument that is read; the induction is over the text, with brackets at any depth. -/
theorem foldl_argText {nested : Bool} {l : List Char} (h : ArgText nested l) (st : SplitState Int) (hin : st.inString = false)
    (hescape : st.escapeNext = false) (hdepth : 0 ≤ st.depth) (hnested : nested = true → 0 < st.depth) :
    l.foldl splitStep st = st.push l := by
  induction h generalizing st with
  | nil => simp
  | @char nested a l hquote hopen hclose hcomma h ih =>
    have hno : ¬(a = ',' ∧ st.depth = 0) := by
      rintro ⟨ha, hzero⟩
      have := hnested (hcomma ha)
      omega
    have hstep : splitStep st a = st.push [a] := by
      simp only [IsOpen, IsClose] at hopen hclose
      simp [splitStep, hin, hescape, hquote, hopen, hclose, hno, SplitState.push]
    rw [List.foldl_cons, hstep, ih (st.push [a]) hin hescape hdepth hnested, SplitState.push_push, List.singleton_append]
  | @string nested s l hs h ih =>
    have hstart : splitStep st '"' = { st.push ['"'] with inString := true } := by simp [splitStep, hin, hescape, SplitState.push]
    have hread := foldl_string hs { st.push ['"'] with inString := true } rfl hescape
    have hstring : ('"' :: (s ++ ['"'])).foldl splitStep st = st.push ('"' :: (s ++ ['"'])) := by
      rw [List.foldl_cons, hstart, hread]
      simp [SplitState.push, hin]
    have hsplit : '"' :: (s ++ '"' :: l) = ('"' :: (s ++ ['"'])) ++ l := by simp
    rw [hsplit, List.foldl_append, hstring, ih (st.push _) hin hescape hdepth hnested, SplitState.push_push]
  | @brackets nested o c m l ho hc hm h ihm ih =>
    have hinner := ihm { st.push [o] with depth := st.depth + 1 } hin hescape (by simp; omega) (fun _ => by simp; omega)
    have hgroup : (o :: (m ++ [c])).foldl splitStep st = st.push (o :: (m ++ [c])) := by
      have hclose := splitStep_close hc ({ st.push [o] with depth := st.depth + 1 }.push m) hin hescape
      rw [List.foldl_cons, splitStep_open ho st hin hescape, List.foldl_append, hinner, List.foldl_cons, List.foldl_nil, hclose]
      simp [SplitState.push]
    have hsplit : o :: (m ++ c :: l) = (o :: (m ++ [c])) ++ l := by simp
    rw [hsplit, List.foldl_append, hgroup, ih (st.push _) hin hescape hdepth hnested, SplitState.push_push]

end Scan

/-! ## The split -/

/-- What is left of the scan at the end of the text. -/
def SplitState.finish (s : SplitState Int) : List String :=
  if (Text.trimChars s.currentArg).isEmpty then s.args else s.args ++ [String.ofList (Text.trimChars s.currentArg)]

/-- Between two arguments: nothing is open, and there are only blanks before the next one. -/
structure SplitState.Between (st : SplitState Int) : Prop where
  blanks : ∀ c ∈ st.currentArg, Text.isWhitespace c = true
  depth : st.depth = 0
  inString : st.inString = false
  escapeNext : st.escapeNext = false

/-- An argument is read whole. -/
theorem SplitState.Between.foldl_arg {st : SplitState Int} (hst : st.Between) {arg : String} (h : ArgText false arg.toList) :
    arg.toList.foldl splitStep st = st.push arg.toList :=
  foldl_argText h st hst.inString hst.escapeNext (by simp [hst.depth]) nofun

/-- The text that is read for an argument is the argument, after blanks. -/
theorem SplitState.Between.trim_push {st : SplitState Int} (hst : st.Between) {arg : String} (h : Text.trim arg = arg) :
    Text.trimChars (st.push arg.toList).currentArg = arg.toList :=
  Text.trimChars_append hst.blanks (Text.trim_eq_self_iff.mp h)

/-- The scan of the arguments that the printer joins, after those before them. -/
theorem foldl_argsStr {args : List String} (hargs : ∀ a ∈ args, PrintedArg a) (hne : args ≠ []) (st : SplitState Int)
    (hst : st.Between) : ((argsStr args).toList.foldl splitStep st).finish = st.args ++ args := by
  unfold argsStr
  rw [String.toList_intercalate]
  induction args generalizing st with
  | nil => exact absurd rfl hne
  | cons a args ih =>
    obtain ⟨hempty, htrim, htext⟩ := hargs a List.mem_cons_self
    have hread := hst.foldl_arg htext
    have hcurrent := hst.trim_push htrim
    cases args with
    | nil =>
      have hne : ¬(a.toList.isEmpty = true) := by simp [hempty]
      rw [List.map_cons, List.map_nil, List.intercalate_singleton, hread, SplitState.finish, hcurrent, if_neg hne,
        String.ofList_toList]
      rfl
    | cons b args =>
      have hcomma : ([',', ' '] : List Char).foldl splitStep (st.push a.toList) =
          { st with args := st.args ++ [a], currentArg := [' '] } := by
        have hsplit : splitStep (st.push a.toList) ',' = { st with args := st.args ++ [a], currentArg := [] } := by
          simp [splitStep, SplitState.push, hst.depth, hst.inString, hst.escapeNext] at hcurrent ⊢
          simp [hcurrent]
        rw [List.foldl_cons, hsplit]
        simp [splitStep, hst.inString, hst.escapeNext]
      have hbetween : SplitState.Between { st with args := st.args ++ [a], currentArg := [' '] } :=
        ⟨fun c hc => by rw [List.mem_singleton.mp hc]; decide, hst.depth, hst.inString, hst.escapeNext⟩
      have hrest := ih (fun x hx => hargs x (List.mem_cons_of_mem _ hx)) (by simp) _ hbetween
      rw [List.map_cons, List.map_cons, List.intercalate_cons_cons, List.foldl_append, List.foldl_append, hread]
      change SplitState.finish ((List.intercalate ", ".toList (b.toList :: args.map String.toList)).foldl splitStep
        ([',', ' '].foldl splitStep (st.push a.toList))) = _
      rw [hcomma]
      rw [List.map_cons] at hrest
      rw [hrest, List.append_assoc, List.singleton_append]

/-- A printed argument is not blank. -/
theorem PrintedArg.not_blank {arg : String} (h : PrintedArg arg) : ¬∀ c ∈ arg.toList, Text.isWhitespace c = true := by
  intro hblank
  have htrim := Text.trim_eq_self_iff.mp h.trimmed
  have hnil := Text.trimChars_blanks hblank []
  rw [List.append_nil, htrim] at hnil
  exact h.ne_empty (String.toList_eq_nil_iff.mp hnil)

/-- The first argument stands at the start of the text. -/
theorem prefix_argsStr (a : String) (args : List String) : a.toList <+: (argsStr (a :: args)).toList := by
  unfold argsStr
  rw [String.toList_intercalate]
  cases args with
  | nil => exact ⟨[], by simp⟩
  | cons b args => exact ⟨_, by rw [List.map_cons, List.map_cons, List.intercalate_cons_cons, List.append_assoc]⟩

/-- Printed arguments are not blank. -/
theorem argsStr_not_blank {a : String} {args : List String} (ha : PrintedArg a) :
    ¬(Text.trimChars (argsStr (a :: args)).toList).isEmpty = true := by
  intro hempty
  rw [List.isEmpty_iff] at hempty
  have hvisible := Text.visible_trimChars (argsStr (a :: args)).toList
  rw [hempty] at hvisible
  have hblank := Text.visible_eq_zero.mp hvisible.symm
  exact ha.not_blank fun c hc => hblank c ((prefix_argsStr a args).subset hc)

/-- Arguments that are joined as the printer joins them are split into the same arguments. -/
theorem split_printed_args {args : List String} (hargs : ∀ a ∈ args, PrintedArg a) :
    splitBalancedArgs (argsStr args).toList = args := by
  cases args with
  | nil => rfl
  | cons a args =>
    have hscan := foldl_argsStr hargs (by simp) {} ⟨nofun, rfl, rfl, rfl⟩
    rw [splitBalancedArgs, splitBalancedArgsIn, if_neg (argsStr_not_blank (hargs a List.mem_cons_self))]
    exact hscan

/-- A call with a comma in its brackets. -/
theorem argText_call : ArgText false ['f', '(', 'x', ',', 'y', ')'] := by
  have hinner : ArgText true ['x', ',', 'y'] := by
    refine .char (by decide) (by decide) (by decide) nofun ?_
    refine .char (by decide) (by decide) (by decide) (fun _ => rfl) ?_
    exact .char (by decide) (by decide) (by decide) nofun .nil
  refine .char (by decide) (by decide) (by decide) nofun ?_
  exact .brackets (l := []) (Or.inl rfl) (Or.inl rfl) hinner .nil

/-- A string with a comma, an escaped quote and a bracket in it. -/
theorem argText_quoted : ArgText false ['"', ',', '\\', '"', ')', '"'] := by
  have hinside : InString [',', '\\', '"', ')'] :=
    .char (by decide) (by decide) (.escape '"' (.char (by decide) (by decide) .nil))
  exact .string (l := []) hinside .nil

/-- Two arguments with a comma in brackets and in a string. -/
theorem split_printed_args_two : splitBalancedArgs (argsStr ["f(x,y)", "\",\\\")\""]).toList = ["f(x,y)", "\",\\\")\""] := by
  refine split_printed_args fun a ha => ?_
  rcases List.mem_pair.mp ha with rfl | rfl
  · exact ⟨by decide, by decide, argText_call⟩
  · exact ⟨by decide, by decide, argText_quoted⟩

end Parser
end WebPipe
