import WebPipe.Lib.Text

/-!
# Settings in a text

A configuration text lists settings `key: value` separated by commas or line breaks, and of two settings of one key the last one
counts. A parser reads the text part by part and keeps one field for each key it knows; `foldlM_lastSetting` says what such a field
holds at the end.
-/

namespace Settings

/-- The parts of a text. -/
def parts (text : String) : List String := Text.split ',' (Text.replaceChar '\n' ',' text)

/-- The key and the value of a part that has a colon. -/
def setting (part : String) : Option (String × String) :=
  if (Text.trim part).isEmpty then none
  else (Text.splitOnce ":" (Text.trim part)).map fun kv => (Text.trim kv.1, Text.trim kv.2)

/-- The settings of a text, in order. -/
def all (text : String) : List (String × String) := (parts text).filterMap setting

/-- The value of the last of a list of settings with a key. -/
def lastOf (key : String) (l : List (String × String)) : Option String :=
  ((l.filter fun kv => kv.1 = key).getLast?).map Prod.snd

/-- The value of the last setting of a text with a key. -/
def last (key text : String) : Option String := lastOf key (all text)

theorem lastOf_append (key : String) (l l' : List (String × String)) :
    lastOf key (l ++ l') = (lastOf key l').or (lastOf key l) := by
  unfold lastOf
  rw [List.filter_append, List.getLast?_append]
  cases (l'.filter fun kv => kv.1 = key).getLast? <;> rfl

theorem lastOf_singleton (key k v : String) : lastOf key [(k, v)] = if k = key then some v else none := by
  unfold lastOf
  by_cases h : k = key <;> simp [h]

theorem mem_of_lastOf {key v : String} {l : List (String × String)} (h : lastOf key l = some v) : (key, v) ∈ l := by
  obtain ⟨⟨k, w⟩, hlast, rfl⟩ := Option.map_eq_some_iff.mp h
  have hmem := List.mem_filter.mp (List.mem_of_getLast? hlast)
  have hk : k = key := by simpa using hmem.2
  exact hk ▸ hmem.1

/-- What a setting makes of the field of a key. -/
def fieldAfter {β : Type*} (key : String) (read : String → Option β) (before : Option β) : Option (String × String) → Option β
  | some (k, v) => if k = key then read v else before
  | none => before

variable {σ β : Type*} {step : σ → String → Option σ} {field : σ → Option β} {key : String} {read : String → Option β}

/-- A field that every part leaves alone, or sets to what it reads of the part's value when the part has the field's key, holds what is
read of the last such value. -/
theorem foldlM_lastSetting (hstep : ∀ s part s', step s part = some s' → field s' = fieldAfter key read (field s) (setting part))
    {parts : List String} {s s' : σ} (h : parts.foldlM step s = some s') :
    field s' = ((lastOf key (parts.filterMap setting)).map read).getD (field s) := by
  induction parts generalizing s with
  | nil =>
    cases h
    rfl
  | cons part parts ih =>
    rw [List.foldlM_cons] at h
    obtain ⟨s₁, hs, h⟩ := Option.bind_eq_some_iff.mp h
    have hfield := hstep _ _ _ hs
    rw [ih h, hfield]
    cases hp : setting part with
    | none => rw [List.filterMap_cons_none hp, fieldAfter]
    | some kv =>
      obtain ⟨k, v⟩ := kv
      rw [List.filterMap_cons_some hp, ← List.singleton_append, lastOf_append, lastOf_singleton, fieldAfter]
      by_cases hk : k = key
      · rw [if_pos hk, if_pos hk]
        cases lastOf key (parts.filterMap setting) <;> rfl
      · rw [if_neg hk, if_neg hk, Option.or_none]

/-- A parser that fails on a part exactly when the part is bad fails on a text exactly when it has a bad part. -/
theorem foldlM_eq_none_iff {bad : String → Prop} (hstep : ∀ s part, step s part = none ↔ bad part) (parts : List String) (s : σ) :
    parts.foldlM step s = none ↔ ∃ part ∈ parts, bad part := by
  induction parts generalizing s with
  | nil => simp
  | cons part parts ih =>
    rw [List.foldlM_cons]
    cases hs : step s part with
    | none =>
      have hbad := (hstep s part).mp hs
      simp [hbad]
    | some s₁ =>
      have hgood : ¬bad part := fun hbad => by rw [(hstep s part).mpr hbad] at hs; cases hs
      simp [ih, hgood]

end Settings
