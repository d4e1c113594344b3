import WebPipe.Lib.Template
import WebPipe.Middleware.Cache
import WebPipe.Middleware.RateLimit

/-!
# Key templates

The rate limiter rewrites its template in place, the cache walks it and writes another text. `key_templates_agree`: both split it into
the same pieces and put the value of each placeholder in its place once, and the keys are equal when every placeholder is a plain path
to a value.
-/

namespace WebPipe

open Template

/-- The pieces of a key template. -/
abbrev KeySplits (template : String) (ps : List Piece) : Prop := Splits '\x7b' '\x7d' template.toList ps

namespace RateLimitMiddleware

/-- The value of a placeholder. -/
def valueOf (input : Value) (name : List Char) : List Char := (replacement input (String.ofList name)).toList

/-- A character that does not occur is not found. -/
theorem findIdx?_of_notMem {a : Char} {l : List Char} (h : a ∉ l) : l.findIdx? (· = a) = none := by
  rw [List.findIdx?_eq_none_iff]
  intro x hx
  rw [decide_eq_false_iff_not]
  rintro rfl
  exact h hx

/-- A character is found where it occurs first. -/
theorem findIdx?_of_first {a : Char} {pre post : List Char} (h : a ∉ pre) :
    (pre ++ a :: post).findIdx? (· = a) = some pre.length := by
  simp [findIdx?_of_notMem h, List.findIdx?_cons]

/-- On unclosed text the loop stops. -/
theorem interpolateStep_done (input : Value) {out l : List Char} (h : Unclosed '\x7b' '\x7d' l) :
    interpolateStep input (out ++ l) out.length = none := by
  unfold interpolateStep
  rw [List.drop_left]
  by_cases ho : '\x7b' ∈ l
  · obtain ⟨lit, post, rfl, hlit⟩ := List.eq_append_cons_of_mem ho
    have hpost : '\x7d' ∉ '\x7b' :: post := by simp [h lit post rfl]
    have hdrop : (out ++ (lit ++ '\x7b' :: post)).drop (out.length + lit.length) = '\x7b' :: post := by
      rw [← List.append_assoc, ← List.length_append, List.drop_left]
    rw [findIdx?_of_first hlit]
    dsimp only
    rw [hdrop, findIdx?_of_notMem hpost]
  · rw [findIdx?_of_notMem ho]

/-- One turn replaces the first placeholder, and goes on after its value. -/
theorem interpolateStep_step (input : Value) {out lit name rest : List Char} (hlit : '\x7b' ∉ lit) (hname : '\x7d' ∉ name) :
    interpolateStep input (out ++ (lit ++ '\x7b' :: (name ++ '\x7d' :: rest))) out.length =
      some ((out ++ lit ++ valueOf input name) ++ rest, (out ++ lit ++ valueOf input name).length) := by
  unfold interpolateStep
  have hclose : ('\x7b' :: (name ++ '\x7d' :: rest)).findIdx? (· = '\x7d') = some (name.length + 1) := by
    rw [← List.cons_append, findIdx?_of_first (by simp [hname])]
    rfl
  have hdrop : (out ++ (lit ++ '\x7b' :: (name ++ '\x7d' :: rest))).drop (out.length + lit.length) =
      '\x7b' :: (name ++ '\x7d' :: rest) := by
    rw [← List.append_assoc, ← List.length_append, List.drop_left]
  have htake : (out ++ (lit ++ '\x7b' :: (name ++ '\x7d' :: rest))).take (out.length + lit.length) = out ++ lit := by
    rw [← List.append_assoc, ← List.length_append, List.take_left]
  have hname' : ((out ++ (lit ++ '\x7b' :: (name ++ '\x7d' :: rest))).drop (out.length + lit.length + 1)).take name.length = name := by
    rw [← List.drop_drop, hdrop]
    simp
  have hrest : (out ++ (lit ++ '\x7b' :: (name ++ '\x7d' :: rest))).drop (out.length + lit.length + (name.length + 1) + 1) = rest := by
    rw [Nat.add_assoc (out.length + lit.length), ← List.drop_drop, hdrop]
    simp
  rw [List.drop_left, findIdx?_of_first hlit]
  dsimp only
  rw [hdrop, hclose]
  dsimp only
  rw [show out.length + lit.length + (name.length + 1) - (out.length + lit.length + 1) = name.length by omega, hname', htake, hrest]
  simp [valueOf, Nat.add_assoc]

/-- The loop outputs the pieces that are left with their values. -/
theorem interpolateLoop_eq (input : Value) {l : List Char} {ps : List Piece} (h : Splits '\x7b' '\x7d' l ps) {n : Nat}
    (hn : l.length ≤ n) (out : List Char) :
    interpolateLoop input n (out ++ l) out.length = out ++ render (valueOf input) ps := by
  induction h generalizing n out with
  | done h =>
    cases n with
    | zero => simp [interpolateLoop, render, Piece.render]
    | succ n => simp [interpolateLoop, interpolateStep_done input h, render, Piece.render]
  | step hlit hname h ih =>
    cases n with
    | zero => simp at hn
    | succ n =>
      rw [interpolateLoop, interpolateStep_step input hlit hname]
      dsimp only
      rw [ih (by simp at hn; omega)]
      simp [render, Piece.render]

/-- The executor renders the pieces of a template. -/
theorem interpolateKey_eq (input : Value) {template : String} {ps : List Piece} (h : KeySplits template ps) :
    interpolateKey template input = String.ofList (render (valueOf input) ps) := by
  unfold interpolateKey
  exact congrArg String.ofList (interpolateLoop_eq input h (Nat.le_refl _) [])

end RateLimitMiddleware

namespace CacheMiddleware

/-- The value of a placeholder. -/
def valueOf (input : Value) (name : List Char) : List Char :=
  (lookupPathString input (Text.trim (String.ofList name))).toList

/-- A name ends at the first closing brace. -/
theorem splitBrace_of_first {name rest : List Char} (h : '\x7d' ∉ name) :
    splitBrace (name ++ '\x7d' :: rest) = some (name, rest) := by
  induction name with
  | nil => simp [splitBrace]
  | cons a name ih =>
    have ha : a ≠ '\x7d' := fun he => h (by simp [he])
    simp [splitBrace, ha, ih fun hm => h (List.mem_cons_of_mem _ hm)]

/-- Without a closing brace there is no name. -/
theorem splitBrace_of_notMem {l : List Char} (h : '\x7d' ∉ l) : splitBrace l = none := by
  induction l with
  | nil => rfl
  | cons a l ih =>
    have ha : a ≠ '\x7d' := fun he => h (by simp [he])
    simp [splitBrace, ha, ih fun hm => h (List.mem_cons_of_mem _ hm)]

/-- Unclosed text is output as it is. -/
theorem renderChars_done (input : Value) {l : List Char} (h : Unclosed '\x7b' '\x7d' l) {n : Nat} (hn : l.length ≤ n) :
    (renderChars input n l).toList = l := by
  induction l generalizing n with
  | nil => cases n <;> rfl
  | cons a l ih =>
    cases n with
    | zero => simp at hn
    | succ n =>
      have htail := ih (fun lit post heq => h (a :: lit) post (by rw [heq]; rfl)) (Nat.le_of_succ_le_succ hn)
      unfold renderChars
      split
      · next ha =>
        rw [splitBrace_of_notMem (h [] l (by rw [ha]; rfl))]
        simp [htail]
      · simp [htail]

/-- Literal text before a placeholder is output as it is. -/
theorem renderChars_literal (input : Value) {lit : List Char} (hlit : '\x7b' ∉ lit) (n : Nat) (rest : List Char) :
    (renderChars input (lit.length + n) (lit ++ rest)).toList = lit ++ (renderChars input n rest).toList := by
  induction lit with
  | nil => simp
  | cons a lit ih =>
    have ha : a ≠ '\x7b' := fun he => hlit (by simp [he])
    rw [List.length_cons, Nat.add_right_comm, List.cons_append, renderChars]
    simp [ha, ih fun hm => hlit (List.mem_cons_of_mem _ hm)]

/-- The scanner outputs the pieces with their values. -/
theorem renderChars_eq (input : Value) {l : List Char} {ps : List Piece} (h : Splits '\x7b' '\x7d' l ps) {n : Nat}
    (hn : l.length ≤ n) : (renderChars input n l).toList = render (valueOf input) ps := by
  induction h generalizing n with
  | done h => simp [renderChars_done input h hn, render, Piece.render]
  | @step lit name rest ps hlit hname h ih =>
    obtain ⟨m, rfl⟩ : ∃ m, n = lit.length + (m + 1) := by
      simp at hn
      exact ⟨n - lit.length - 1, by omega⟩
    have hm : rest.length ≤ m := by
      simp at hn
      omega
    rw [renderChars_literal input hlit, renderChars, if_pos rfl, splitBrace_of_first hname]
    simp [ih hm, render, Piece.render, valueOf]

/-- The middleware renders the same pieces. -/
theorem renderKeyTemplate_eq (input : Value) {template : String} {ps : List Piece} (h : KeySplits template ps) :
    renderKeyTemplate template input = String.ofList (render (valueOf input) ps) := by
  unfold renderKeyTemplate
  rw [← renderChars_eq input h (Nat.le_refl _), String.ofList_toList]

end CacheMiddleware

/-! ## Plain paths -/

/-- The value at a path through objects. -/
def valueAt (input : Value) (segs : List String) : Option Value := segs.foldlM (fun v seg => v.get seg) input

/-- A placeholder is a dotted path without blanks and empty segments, to a value that is not null. -/
structure PlainPath (input : Value) (name : List Char) : Prop where
  blankFree : ∀ c ∈ name, Text.isWhitespace c = false
  segments : ∀ seg ∈ Text.split '.' (String.ofList name), seg ≠ ""
  value : ∃ v, valueAt input (Text.split '.' (String.ofList name)) = some v ∧ v ≠ .null

/-- Text without white space is trimmed already. -/
theorem trim_of_blankFree {l : List Char} (h : ∀ c ∈ l, Text.isWhitespace c = false) : Text.trim (String.ofList l) = String.ofList l := by
  have hdrop : ∀ {l : List Char}, (∀ c ∈ l, Text.isWhitespace c = false) → l.dropWhile Text.isWhitespace = l := by
    intro l h
    cases l with
    | nil => rfl
    | cons a l => rw [List.dropWhile_cons_of_neg (by simp [h a (List.mem_cons_self ..)])]
  have hreverse : ∀ c ∈ l.reverse, Text.isWhitespace c = false := fun c hc => h c (List.mem_reverse.mp hc)
  rw [Text.trim, Text.trimChars, String.toList_ofList, hdrop h, hdrop hreverse, List.reverse_reverse]

/-- The limiter's look-up arrives at a value reached through objects. -/
theorem resolvePath_of_valueAt {input v : Value} {path : String} (h : valueAt input (Text.split '.' path) = some v) :
    RateLimitMiddleware.resolvePath input path = some v := by
  unfold RateLimitMiddleware.resolvePath
  unfold valueAt at h
  generalize Text.split '.' path = segs at h ⊢
  induction segs generalizing input with
  | nil => exact h
  | cons seg segs ih =>
    rw [List.foldlM_cons] at h ⊢
    obtain ⟨w, hget, hrest⟩ := Option.bind_eq_some_iff.mp h
    cases input with
    | object members => exact Option.bind_eq_some_iff.mpr ⟨w, hget, ih hrest⟩
    | _ => simp [Value.get, Value.asObject] at hget

/-- So does the cache's. -/
theorem foldl_get_of_valueAt {input v : Value} {segs : List String} (h : valueAt input segs = some v) :
    segs.foldl (fun (cur : Value) seg => (cur.get seg).getD .null) input = v := by
  unfold valueAt at h
  induction segs generalizing input with
  | nil =>
    cases h
    rfl
  | cons seg segs ih =>
    rw [List.foldlM_cons] at h
    obtain ⟨w, hget, hrest⟩ := Option.bind_eq_some_iff.mp h
    rw [List.foldl_cons, hget, Option.getD_some]
    exact ih hrest

/-- On a plain path the values are the same text. -/
theorem valueOf_of_plainPath {input : Value} {name : List Char} (h : PlainPath input name) :
    RateLimitMiddleware.valueOf input name = CacheMiddleware.valueOf input name := by
  obtain ⟨v, hv, hne⟩ := h.value
  have hsegs : (Text.split '.' (String.ofList name)).filter (fun seg => !seg.isEmpty) = Text.split '.' (String.ofList name) := by
    rw [List.filter_eq_self]
    intro seg hseg
    simpa using h.segments seg hseg
  unfold RateLimitMiddleware.valueOf CacheMiddleware.valueOf RateLimitMiddleware.replacement CacheMiddleware.lookupPathString
  rw [trim_of_blankFree h.blankFree, hsegs, foldl_get_of_valueAt hv, resolvePath_of_valueAt hv]
  cases v with
  | null => exact absurd rfl hne
  | _ => rfl

/-- Both scanners split a template into the same pieces, and output each literal unchanged and the value of each placeholder in its
place; on a template of plain paths to values the keys are equal. -/
theorem key_templates_agree (template : String) (input : Value) :
    ∃ ps, KeySplits template ps ∧ (∀ ps', KeySplits template ps' → ps' = ps) ∧
      RateLimitMiddleware.interpolateKey template input = String.ofList (render (RateLimitMiddleware.valueOf input) ps) ∧
      CacheMiddleware.renderKeyTemplate template input = String.ofList (render (CacheMiddleware.valueOf input) ps) ∧
      ((∀ name, Piece.placeholder name ∈ ps → PlainPath input name) →
        RateLimitMiddleware.interpolateKey template input = CacheMiddleware.renderKeyTemplate template input) := by
  obtain ⟨ps, hps⟩ := exists_splits '\x7b' '\x7d' template.toList
  have hlimiter := RateLimitMiddleware.interpolateKey_eq input hps
  have hcache := CacheMiddleware.renderKeyTemplate_eq input hps
  refine ⟨ps, hps, fun ps' h => h.unique hps, hlimiter, hcache, fun hplain => ?_⟩
  rw [hlimiter, hcache, render_congr fun name hname => valueOf_of_plainPath (hplain name hname)]

end WebPipe
