import WebPipe.Lib.Settings
import WebPipe.Middleware.Cache
import WebPipe.Middleware.RateLimit
import WebPipe.Theorems.RejectedPut

/-!
# Overflow in limits and times

The numbers of a `rateLimit` or `cache` configuration are full 64-bit numbers, and nothing checks them before they are multiplied by a
unit, added to a burst or a grace, or added to the clock. A computation is exact when a debug build returns and a release build agrees
with it; `no_overflow_iff` is exact about when that is.
-/

namespace WebPipe

/-- Both builds return, with the same result. -/
def Build.Exact {α : Type*} (run : Build → Option α) : Prop := ∃ r, ∀ b, run b = some r

/-- A release build does what a debug build does when that returns. -/
def Build.Agrees {α : Type*} (run : Build → Option α) : Prop := ∀ r, run .debug = some r → run .release = some r

namespace Build

variable {α β : Type*}

/-- Where the builds agree, a computation is exact when it does not panic in the debug build. -/
theorem Agrees.exact_iff {run : Build → Option α} (h : Agrees run) : Exact run ↔ run .debug ≠ none := by
  constructor
  · rintro ⟨r, hr⟩ hn
    rw [hr .debug] at hn
    cases hn
  · intro hn
    obtain ⟨r, hr⟩ := Option.ne_none_iff_exists'.mp hn
    refine ⟨r, fun b => ?_⟩
    cases b with
    | debug => exact hr
    | release => exact h r hr

theorem agrees_const (r : Option α) : Agrees fun _ => r := fun _ h => h

/-- The builds agree on a 64-bit result where it is in range. -/
theorem agrees_u64 (n : Nat) : Agrees fun b => b.u64 n := by
  intro r h
  change u64 .debug n = some r at h
  change u64 .release n = some r
  unfold u64 at h ⊢
  split
  · next hlt => rwa [if_pos hlt] at h
  · next hge =>
    rw [if_neg hge] at h
    cases h

/-- A sequence agrees when its parts do. -/
theorem Agrees.bind {run : Build → Option α} {next : Build → α → Option β} (h : Agrees run) (hnext : ∀ a, Agrees fun b => next b a) :
    Agrees fun b => (run b).bind (next b) := by
  intro r hr
  obtain ⟨a, ha, hr⟩ := Option.bind_eq_some_iff.mp hr
  exact Option.bind_eq_some_iff.mpr ⟨a, h a ha, hnext a r hr⟩

theorem Agrees.map {run : Build → Option α} (h : Agrees run) (f : α → β) : Agrees fun b => (run b).map f := by
  intro r hr
  obtain ⟨a, ha, hr⟩ := Option.map_eq_some_iff.mp hr
  exact Option.map_eq_some_iff.mpr ⟨a, h a ha, hr⟩

/-- What is done with a result makes no difference. -/
theorem Agrees.exact_map_iff {run : Build → Option α} (h : Agrees run) (f : α → β) :
    Exact (fun b => (run b).map f) ↔ Exact run := by
  rw [(h.map f).exact_iff, h.exact_iff, Ne, Option.map_eq_none_iff]

/-- A loop agrees when its turns do. -/
theorem Agrees.foldlM {ι : Type*} {step : Build → α → ι → Option α} (h : ∀ a i, Agrees fun b => step b a i) (l : List ι) (a : α) :
    Agrees fun b => l.foldlM (step b) a := by
  induction l generalizing a with
  | nil => exact agrees_const _
  | cons i l ih =>
    simp only [List.foldlM_cons]
    exact (h a i).bind fun a' => ih a'

/-- The debug build panics at results from 2⁶⁴ on. -/
theorem u64_debug_eq_none_iff {n : Nat} : u64 .debug n = none ↔ 2 ^ 64 ≤ n := by
  unfold u64
  by_cases h : n < 2 ^ 64
  · simp only [if_pos h, reduceCtorEq, false_iff]
    omega
  · simp only [if_neg h, true_iff]
    omega

end Build

namespace RateLimitMiddleware

open Build

/-! ## Durations -/

/-- The units whose number is multiplied, with their seconds. -/
def units : List (String × Nat) := [("m", 60), ("h", 3600), ("d", 86400)]

/-- A text is a number of a unit. -/
def IsDuration (v : String) (num unitSecs : Nat) : Prop :=
  ∃ suffix numStr, (suffix, unitSecs) ∈ units ∧ Text.stripSuffix suffix (Text.trim v) = some numStr ∧
    Text.parseUnsigned 64 (Text.trim numStr) = some num

/-- A text is a duration of too many seconds. -/
def TooLong (v : String) : Prop := ∃ num unitSecs, IsDuration v num unitSecs ∧ 2 ^ 64 ≤ num * unitSecs

/-- The three units, with their seconds. -/
theorem mem_units {suffix : String} {unitSecs : Nat} (h : (suffix, unitSecs) ∈ units) :
    (suffix = "m" ∧ unitSecs = 60) ∨ (suffix = "h" ∧ unitSecs = 3600) ∨ (suffix = "d" ∧ unitSecs = 86400) := by
  simpa [units] using h

theorem agrees_inUnit (unitSecs : Nat) (numStr : String) : Build.Agrees fun b => inUnit b unitSecs numStr := by
  unfold inUnit
  split
  · exact agrees_const _
  · exact (agrees_u64 _).map some

/-- A number in a unit overflows exactly when its product does. -/
theorem inUnit_eq_none_iff {unitSecs : Nat} {numStr : String} :
    inUnit .debug unitSecs numStr = none ↔
      ∃ num, Text.parseUnsigned 64 (Text.trim numStr) = some num ∧ 2 ^ 64 ≤ num * unitSecs := by
  unfold inUnit
  cases h : Text.parseUnsigned 64 (Text.trim numStr) with
  | none => simp
  | some num => simp [u64_debug_eq_none_iff]

/-- How a duration is read: not at all, as a plain number, as a number of milliseconds or seconds, or as a number of a unit. -/
theorem parseDuration_cases (v : String) :
    (∀ b, parseDuration b v = some none) ∨
      (∃ n, Text.parseUnsigned 64 (Text.trim v) = some n ∧ ∀ b, parseDuration b v = some (some n)) ∨
      (∃ suffix numStr scale, suffix ∈ ["ms", "s"] ∧ Text.stripSuffix suffix (Text.trim v) = some numStr ∧
        ∀ b, parseDuration b v = some ((Text.parseUnsigned 64 (Text.trim numStr)).map fun num => num / scale)) ∨
      ∃ suffix numStr unitSecs, (suffix, unitSecs) ∈ units ∧ Text.stripSuffix suffix (Text.trim v) = some numStr ∧
        ∀ b, parseDuration b v = inUnit b unitSecs numStr := by
  unfold parseDuration
  dsimp only
  split
  · exact Or.inl fun _ => rfl
  · split
    · next n hn => exact Or.inr (Or.inl ⟨n, hn, fun _ => rfl⟩)
    · split
      · next numStr hstrip => exact Or.inr (Or.inr (Or.inl ⟨"ms", numStr, 1000, by simp, hstrip, fun _ => rfl⟩))
      · split
        · next numStr hstrip => exact Or.inr (Or.inr (Or.inl ⟨"s", numStr, 1, by simp, hstrip, fun _ => by simp⟩))
        · split
          · next numStr hstrip => exact Or.inr (Or.inr (Or.inr ⟨"m", numStr, 60, by simp [units], hstrip, fun _ => rfl⟩))
          · split
            · next numStr hstrip => exact Or.inr (Or.inr (Or.inr ⟨"h", numStr, 3600, by simp [units], hstrip, fun _ => rfl⟩))
            · split
              · next numStr hstrip => exact Or.inr (Or.inr (Or.inr ⟨"d", numStr, 86400, by simp [units], hstrip, fun _ => rfl⟩))
              · exact Or.inl fun _ => rfl

/-- The builds agree on durations. -/
theorem agrees_parseDuration (v : String) : Build.Agrees fun b => parseDuration b v := by
  rcases parseDuration_cases v with h | ⟨n, -, h⟩ | ⟨suffix, numStr, scale, -, -, h⟩ | ⟨suffix, numStr, unitSecs, -, -, h⟩
  · simp only [h]
    exact agrees_const _
  · simp only [h]
    exact agrees_const _
  · simp only [h]
    exact agrees_const _
  · simp only [h]
    exact agrees_inUnit _ _

/-- A duration whose unit is multiplied is read by the branch of its unit: it is no plain number, and ends in no other suffix. -/
theorem parseDuration_of_unit {v suffix numStr : String} {unitSecs : Nat} (hunit : (suffix, unitSecs) ∈ units)
    (hstrip : Text.stripSuffix suffix (Text.trim v) = some numStr) (b : Build) : parseDuration b v = inUnit b unitSecs numStr := by
  have htext := Text.toList_of_stripSuffix hstrip
  have hempty : ∀ c, (Text.trim v).toList = numStr.toList ++ [c] → ¬(Text.trim v).isEmpty = true := by
    intro c hc he
    rw [String.isEmpty_iff] at he
    simp [he] at hc
  have hskip : ∀ c, (Text.trim v).toList = numStr.toList ++ [c] → ∀ suffix d, suffix.toList.getLast? = some d → d ≠ c →
      Text.stripSuffix suffix (Text.trim v) = none :=
    fun c hc suffix d hsuffix hne => Text.stripSuffix_eq_none hsuffix hc hne
  unfold parseDuration
  dsimp only
  rcases mem_units hunit with ⟨rfl, rfl⟩ | ⟨rfl, rfl⟩ | ⟨rfl, rfl⟩
  · rw [if_neg (hempty 'm' htext), Text.parseUnsigned_of_last htext rfl, hskip 'm' htext "ms" 's' rfl (by decide),
      hskip 'm' htext "s" 's' rfl (by decide), hstrip]
  · rw [if_neg (hempty 'h' htext), Text.parseUnsigned_of_last htext rfl, hskip 'h' htext "ms" 's' rfl (by decide),
      hskip 'h' htext "s" 's' rfl (by decide), hskip 'h' htext "m" 'm' rfl (by decide), hstrip]
  · rw [if_neg (hempty 'd' htext), Text.parseUnsigned_of_last htext rfl, hskip 'd' htext "ms" 's' rfl (by decide),
      hskip 'd' htext "s" 's' rfl (by decide), hskip 'd' htext "m" 'm' rfl (by decide),
      hskip 'd' htext "h" 'h' rfl (by decide), hstrip]

/-- Reading a duration overflows exactly on one that is too long. -/
theorem parseDuration_eq_none_iff {v : String} : parseDuration .debug v = none ↔ TooLong v := by
  constructor
  · intro hnone
    rcases parseDuration_cases v with h | ⟨n, -, h⟩ | ⟨suffix, numStr, scale, -, -, h⟩ | ⟨suffix, numStr, unitSecs, hunit, hstrip, h⟩
    · simp [h] at hnone
    · simp [h] at hnone
    · simp [h] at hnone
    · rw [h, inUnit_eq_none_iff] at hnone
      obtain ⟨num, hnum, hlarge⟩ := hnone
      exact ⟨num, unitSecs, ⟨suffix, numStr, hunit, hstrip, hnum⟩, hlarge⟩
  · rintro ⟨num, unitSecs, ⟨suffix, numStr, hunit, hstrip, hnum⟩, hlarge⟩
    rw [parseDuration_of_unit hunit hstrip, inUnit_eq_none_iff]
    exact ⟨num, hnum, hlarge⟩

/-- A text is a number, or a number of a unit. -/
def Readable (v : String) : Prop :=
  (Text.parseUnsigned 64 (Text.trim v)).isSome ∨
    ∃ suffix numStr, suffix ∈ ["ms", "s", "m", "h", "d"] ∧ Text.stripSuffix suffix (Text.trim v) = some numStr ∧
      (Text.parseUnsigned 64 (Text.trim numStr)).isSome

/-- Where there is no overflow, a number in a unit is read exactly when it is a number. -/
theorem isSome_of_inUnit {b : Build} {unitSecs : Nat} {numStr : String} {r : Option Nat} (h : inUnit b unitSecs numStr = some r) :
    r.isSome = (Text.parseUnsigned 64 (Text.trim numStr)).isSome := by
  unfold inUnit at h
  cases hn : Text.parseUnsigned 64 (Text.trim numStr) with
  | none =>
    rw [hn] at h
    cases h
    rfl
  | some num =>
    rw [hn] at h
    obtain ⟨n, -, rfl⟩ := Option.map_eq_some_iff.mp h
    rfl

/-- A readable text is read: a text that ends in `s` is no plain number, and when it ends in `ms` what stands before its `s` is no
number either. -/
theorem isSome_of_readable {v : String} (hv : Readable v) {b : Build} {r : Option Nat} (h : parseDuration b v = some r) :
    r.isSome := by
  rcases hv with hplain | ⟨suffix, numStr, hsuffix, hstrip, hnum⟩
  · obtain ⟨n, hn⟩ := Option.isSome_iff_exists.mp hplain
    unfold parseDuration at h
    dsimp only at h
    rw [hn] at h
    split at h
    · next he =>
      rw [String.isEmpty_iff] at he
      rw [he] at hn
      cases hn
    · cases h
      rfl
  · have hsuffix : suffix = "ms" ∨ suffix = "s" ∨ ∃ unitSecs, (suffix, unitSecs) ∈ units := by
      simp only [List.mem_cons, List.not_mem_nil, or_false] at hsuffix
      rcases hsuffix with rfl | rfl | rfl | rfl | rfl <;> simp [units]
    have htext := Text.toList_of_stripSuffix hstrip
    have hempty : ∀ l, (Text.trim v).toList = l ++ ['s'] → ¬(Text.trim v).isEmpty = true := by
      intro l hl he
      rw [String.isEmpty_iff] at he
      simp [he] at hl
    rcases hsuffix with rfl | rfl | ⟨unitSecs, hunit⟩
    · have hl : (Text.trim v).toList = (numStr.toList ++ ['m']) ++ ['s'] := by rw [htext, List.append_assoc]; rfl
      unfold parseDuration at h
      dsimp only at h
      rw [if_neg (hempty _ hl), Text.parseUnsigned_of_last hl rfl, hstrip] at h
      rw [← Option.some.inj h, Option.isSome_map]
      exact hnum
    · have hms : Text.stripSuffix "ms" (Text.trim v) = none := by
        by_contra hsome
        obtain ⟨p, hp⟩ := Option.ne_none_iff_exists'.mp hsome
        have hnumStr : numStr.toList = p.toList ++ ['m'] := by
          have h' : numStr.toList ++ ['s'] = (p.toList ++ ['m']) ++ ['s'] := by
            rw [List.append_assoc]
            exact htext.symm.trans (Text.toList_of_stripSuffix hp)
          exact List.append_cancel_right h'
        obtain ⟨l, hl⟩ := Text.trim_of_last hnumStr rfl
        rw [Text.parseUnsigned_of_last hl rfl] at hnum
        cases hnum
      unfold parseDuration at h
      dsimp only at h
      rw [if_neg (hempty _ htext), Text.parseUnsigned_of_last htext rfl, hms, hstrip] at h
      rw [← Option.some.inj h]
      exact hnum
    · rw [parseDuration_of_unit hunit hstrip] at h
      rw [isSome_of_inUnit h]
      exact hnum

/-- A duration is read exactly when it is readable. -/
theorem isSome_parseDuration {b : Build} {v : String} {r : Option Nat} (h : parseDuration b v = some r) :
    r.isSome ↔ Readable v := by
  refine ⟨fun hr => ?_, fun hv => isSome_of_readable hv h⟩
  rcases parseDuration_cases v with hv | ⟨n, hn, hv⟩ | ⟨suffix, numStr, scale, hsuffix, hstrip, hv⟩ |
    ⟨suffix, numStr, unitSecs, hunit, hstrip, hv⟩
  · rw [hv] at h
    rw [← Option.some.inj h] at hr
    cases hr
  · exact Or.inl (by rw [hn]; rfl)
  · rw [hv] at h
    rw [← Option.some.inj h] at hr
    have hmem : suffix ∈ ["ms", "s", "m", "h", "d"] := List.mem_append_left ["m", "h", "d"] hsuffix
    exact Or.inr ⟨suffix, numStr, hmem, hstrip, by simpa using hr⟩
  · rw [hv] at h
    have hmem : suffix ∈ ["ms", "s", "m", "h", "d"] := by
      rcases mem_units hunit with ⟨rfl, -⟩ | ⟨rfl, -⟩ | ⟨rfl, -⟩ <;> simp
    exact Or.inr ⟨suffix, numStr, hmem, hstrip, isSome_of_inUnit h ▸ hr⟩

/-! ## Configurations -/

/-- What a setting makes of the configuration. -/
def applySetting (b : Build) (lc : RateLimitConfig) (key val : String) : Option RateLimitConfig :=
  if key = "keyTemplate" then some { lc with keyTemplate := some val }
  else if key = "limit" then some { lc with limit := Text.parseUnsigned 64 val }
  else if key = "window" then (parseDuration b val).map fun window => { lc with windowSecs := window }
  else if key = "burst" then some { lc with burst := Text.parseUnsigned 64 val }
  else if key = "scope" then some { lc with scope := some val }
  else if key = "enabled" then some { lc with enabled := parseBool val }
  else some lc

/-- A part that is no setting changes nothing. -/
theorem parsePart_of_none {part : String} (h : Settings.setting part = none) (b : Build) (lc : RateLimitConfig) :
    parsePart b lc part = some lc := by
  unfold Settings.setting at h
  unfold parsePart
  dsimp only
  split
  · rfl
  · next hne =>
    rw [if_neg hne, Option.map_eq_none_iff] at h
    rw [h]

/-- A setting is applied. -/
theorem parsePart_of_some {part key val : String} (h : Settings.setting part = some (key, val)) (b : Build) (lc : RateLimitConfig) :
    parsePart b lc part = applySetting b lc key val := by
  unfold Settings.setting at h
  unfold parsePart
  dsimp only
  split
  · next he =>
    rw [if_pos he] at h
    cases h
  · next hne =>
    rw [if_neg hne] at h
    obtain ⟨⟨k, v⟩, hsplit, hkv⟩ := Option.map_eq_some_iff.mp h
    rw [Prod.mk.injEq] at hkv
    rw [hsplit, ← hkv.1, ← hkv.2]
    unfold applySetting
    dsimp only

/-- A setting sets the field of its key, and no other. -/
theorem fields_of_applySetting {b : Build} {lc lc' : RateLimitConfig} {key val : String} (h : applySetting b lc key val = some lc') :
    lc'.keyTemplate = (if key = "keyTemplate" then some val else lc.keyTemplate) ∧
      lc'.limit = (if key = "limit" then Text.parseUnsigned 64 val else lc.limit) ∧
      lc'.windowSecs = (if key = "window" then (parseDuration b val).join else lc.windowSecs) ∧
      lc'.burst = (if key = "burst" then Text.parseUnsigned 64 val else lc.burst) ∧
      lc'.enabled = (if key = "enabled" then parseBool val else lc.enabled) := by
  unfold applySetting at h
  split at h
  · next hk =>
    subst hk
    cases h
    simp
  · split at h
    · next hk =>
      subst hk
      cases h
      simp
    · split at h
      · next hk =>
        subst hk
        obtain ⟨window, hw, rfl⟩ := Option.map_eq_some_iff.mp h
        simp [hw]
      · split at h
        · next hk =>
          subst hk
          cases h
          simp
        · split at h
          · next hk =>
            subst hk
            cases h
            simp
          · split at h
            · next hk =>
              subst hk
              cases h
              simp
            · next h1 h2 h3 h4 h5 h6 =>
              cases h
              simp [h1, h2, h3, h4, h6]

/-- A part sets the field of its key, and no other. -/
theorem fields_of_parsePart {b : Build} {lc lc' : RateLimitConfig} {part : String} (h : parsePart b lc part = some lc') :
    lc'.keyTemplate = Settings.fieldAfter "keyTemplate" some lc.keyTemplate (Settings.setting part) ∧
      lc'.limit = Settings.fieldAfter "limit" (Text.parseUnsigned 64) lc.limit (Settings.setting part) ∧
      lc'.windowSecs = Settings.fieldAfter "window" (fun v => (parseDuration b v).join) lc.windowSecs (Settings.setting part) ∧
      lc'.burst = Settings.fieldAfter "burst" (Text.parseUnsigned 64) lc.burst (Settings.setting part) ∧
      lc'.enabled = Settings.fieldAfter "enabled" parseBool lc.enabled (Settings.setting part) := by
  cases hs : Settings.setting part with
  | none =>
    rw [parsePart_of_none hs] at h
    cases h
    exact ⟨rfl, rfl, rfl, rfl, rfl⟩
  | some kv =>
    rw [parsePart_of_some hs] at h
    exact fields_of_applySetting h

/-- Only a window is computed. -/
theorem applySetting_cases (lc : RateLimitConfig) (key val : String) :
    (key = "window" ∧ ∀ b, applySetting b lc key val = (parseDuration b val).map fun window => { lc with windowSecs := window }) ∨
      (key ≠ "window" ∧ ∃ lc', ∀ b, applySetting b lc key val = some lc') := by
  by_cases hk : key = "window"
  · subst hk
    exact Or.inl ⟨rfl, fun _ => rfl⟩
  · refine Or.inr ⟨hk, ?_⟩
    unfold applySetting
    simp only [if_neg hk]
    split
    · exact ⟨_, fun _ => rfl⟩
    · split
      · exact ⟨_, fun _ => rfl⟩
      · split
        · exact ⟨_, fun _ => rfl⟩
        · split
          · exact ⟨_, fun _ => rfl⟩
          · split
            · exact ⟨_, fun _ => rfl⟩
            · exact ⟨_, fun _ => rfl⟩

/-- The builds agree on one part of a config. -/
theorem agrees_parsePart (lc : RateLimitConfig) (part : String) : Build.Agrees fun b => parsePart b lc part := by
  cases hs : Settings.setting part with
  | none =>
    simp only [parsePart_of_none hs]
    exact agrees_const _
  | some kv =>
    simp only [parsePart_of_some hs]
    rcases applySetting_cases lc kv.1 kv.2 with ⟨-, h⟩ | ⟨-, lc', h⟩
    · simp only [h]
      exact (agrees_parseDuration _).map _
    · simp only [h]
      exact agrees_const _

/-- A part is a window of too many seconds. -/
def IsTooLong (part : String) : Prop := ∃ v, Settings.setting part = some ("window", v) ∧ TooLong v

/-- A part overflows exactly when it is a window that is too long. -/
theorem parsePart_eq_none_iff (lc : RateLimitConfig) (part : String) : parsePart .debug lc part = none ↔ IsTooLong part := by
  unfold IsTooLong
  cases hs : Settings.setting part with
  | none => simp [parsePart_of_none hs]
  | some kv =>
    obtain ⟨key, val⟩ := kv
    rw [parsePart_of_some hs]
    rcases applySetting_cases lc key val with ⟨rfl, h⟩ | ⟨hk, lc', h⟩
    · rw [h, Option.map_eq_none_iff, parseDuration_eq_none_iff]
      simp
    · simp [h, hk]

/-- The windows of a text are not too long. -/
def WindowsFit (config : String) : Prop :=
  ∀ v num unitSecs, ("window", v) ∈ Settings.all config → IsDuration v num unitSecs → num * unitSecs < 2 ^ 64

/-- A config is read without overflow exactly when its windows fit. -/
theorem parseConfig_ne_none_iff (config : String) : parseConfig .debug config ≠ none ↔ WindowsFit config := by
  have hnone := Settings.foldlM_eq_none_iff parsePart_eq_none_iff (Settings.parts config) {}
  unfold parseConfig WindowsFit
  rw [Ne, show Text.split ',' (Text.replaceChar '\n' ',' config) = Settings.parts config from rfl, hnone]
  unfold Settings.all
  constructor
  · intro h v num unitSecs hmem hduration
    obtain ⟨part, hpart, hs⟩ := List.mem_filterMap.mp hmem
    by_contra hlarge
    exact h ⟨part, hpart, v, hs, num, unitSecs, hduration, Nat.not_lt.mp hlarge⟩
  · rintro h ⟨part, hpart, v, hs, num, unitSecs, hduration, hlarge⟩
    exact Nat.not_lt.mpr hlarge (h v num unitSecs (List.mem_filterMap.mpr ⟨part, hpart, hs⟩) hduration)

/-- The builds agree on configs. -/
theorem agrees_parseConfig (config : String) : Build.Agrees fun b => parseConfig b config :=
  Build.Agrees.foldlM agrees_parsePart _ _

/-- The last setting of a text with a key, as it is read. -/
def lastRead {β : Type} (key : String) (read : String → Option β) (config : String) : Option β :=
  (Settings.last key config).bind read

/-- The fields of a configuration are read of the last settings of their keys. -/
theorem fields_of_parseConfig {b : Build} {config : String} {lc : RateLimitConfig} (h : parseConfig b config = some lc) :
    lc.keyTemplate = Settings.last "keyTemplate" config ∧ lc.limit = lastRead "limit" (Text.parseUnsigned 64) config ∧
      lc.windowSecs = lastRead "window" (fun v => (parseDuration b v).join) config ∧
      lc.burst = lastRead "burst" (Text.parseUnsigned 64) config ∧ lc.enabled = lastRead "enabled" parseBool config := by
  have hfield : ∀ {β : Type} (field : RateLimitConfig → Option β) (key : String) (read : String → Option β), field {} = none →
      (∀ lc part lc', parsePart b lc part = some lc' →
        field lc' = Settings.fieldAfter key read (field lc) (Settings.setting part)) →
      field lc = lastRead key read config := by
    intro β field key read hnone hstep
    rw [Settings.foldlM_lastSetting hstep h, hnone]
    unfold lastRead Settings.last Settings.all Settings.parts
    cases Settings.lastOf key ((Text.split ',' (Text.replaceChar '\n' ',' config)).filterMap Settings.setting) <;> rfl
  refine ⟨?_, ?_, ?_, ?_, ?_⟩
  · rw [hfield RateLimitConfig.keyTemplate "keyTemplate" some rfl fun _ _ _ h => (fields_of_parsePart h).1]
    unfold lastRead
    simp
  · exact hfield RateLimitConfig.limit _ _ rfl fun _ _ _ h => (fields_of_parsePart h).2.1
  · exact hfield RateLimitConfig.windowSecs _ _ rfl fun _ _ _ h => (fields_of_parsePart h).2.2.1
  · exact hfield RateLimitConfig.burst _ _ rfl fun _ _ _ h => (fields_of_parsePart h).2.2.2.1
  · exact hfield RateLimitConfig.enabled _ _ rfl fun _ _ _ h => (fields_of_parsePart h).2.2.2.2

/-! ## Steps -/

/-- The step counts the request when it has a limit: it is enabled, and has a template and a readable window. -/
def Counts (config : String) : Prop :=
  lastRead "enabled" parseBool config ≠ some false ∧ (Settings.last "keyTemplate" config).isSome ∧
    ∃ v, Settings.last "window" config = some v ∧ Readable v

/-- The limit and the burst fit together. -/
def LimitsFit (config : String) : Prop :=
  ∀ limit, lastRead "limit" (Text.parseUnsigned 64) config = some limit →
    limit + (lastRead "burst" (Text.parseUnsigned 64) config).getD 0 < 2 ^ 64

/-- The builds agree on a step of the middleware. -/
theorem agrees_execute (now : Nat) (config : String) (input : Value) (store : RateLimitStore) :
    Build.Agrees fun b => execute b now config input store := by
  unfold execute
  refine (agrees_parseConfig config).bind fun cfg => ?_
  split
  · exact agrees_const _
  · cases required "keyTemplate" cfg.keyTemplate with
    | error e => exact agrees_const _
    | ok keyTemplate =>
      cases required "limit" cfg.limit with
      | error e => exact agrees_const _
      | ok limit =>
        cases required "window" cfg.windowSecs with
        | error e => exact agrees_const _
        | ok window => exact ((agrees_u64 _).map _).map _

/-- A check overflows exactly when limit and burst together do. -/
theorem checkAndIncrementIn_eq_none_iff {s : RateLimitStore} {now : Nat} {c : RateLimitCall} :
    s.checkAndIncrementIn .debug now c = none ↔ 2 ^ 64 ≤ c.limit + c.burst.getD 0 := by
  unfold RateLimitStore.checkAndIncrementIn
  rw [Option.map_eq_none_iff, u64_debug_eq_none_iff]

/-- A parsed configuration has a window when its last window is readable. -/
theorem isSome_windowSecs_iff {config : String} {cfg : RateLimitConfig} (h : parseConfig .debug config = some cfg) :
    cfg.windowSecs.isSome ↔ ∃ v, Settings.last "window" config = some v ∧ Readable v := by
  have hfit : WindowsFit config := (parseConfig_ne_none_iff config).mp (by simp [h])
  rw [(fields_of_parseConfig h).2.2.1]
  unfold lastRead
  cases hv : Settings.last "window" config with
  | none => simp
  | some v =>
    have hread : parseDuration .debug v ≠ none := by
      rw [Ne, parseDuration_eq_none_iff]
      rintro ⟨num, unitSecs, hduration, hlarge⟩
      exact Nat.not_lt.mpr hlarge (hfit v num unitSecs (Settings.mem_of_lastOf hv) hduration)
    obtain ⟨r, hr⟩ := Option.ne_none_iff_exists'.mp hread
    simp [hr, isSome_parseDuration hr]

/-- A debug build panics on a parsed configuration exactly when the request is counted and the limit and the burst do not fit. -/
theorem execute_ne_none_iff {now : Nat} {config : String} {input : Value} {store : RateLimitStore} :
    execute .debug now config input store ≠ none ↔ WindowsFit config ∧ (Counts config → LimitsFit config) := by
  rw [← parseConfig_ne_none_iff]
  cases hp : parseConfig .debug config with
  | none => simp [execute, hp]
  | some cfg =>
    obtain ⟨hkey, hlimit, hwindow, hburst, henabled⟩ := fields_of_parseConfig hp
    simp only [ne_eq, reduceCtorEq, not_false_eq_true, true_and]
    have hreadable := isSome_windowSecs_iff hp
    unfold execute Counts LimitsFit
    rw [hp, Option.bind_some, ← hkey, ← hlimit, ← hburst, ← henabled, ← hreadable]
    split
    · next hoff =>
      have hoff : cfg.enabled = some false := by
        cases he : cfg.enabled with
        | none =>
          rw [he] at hoff
          cases hoff
        | some on =>
          rw [he] at hoff
          exact congrArg some hoff
      simp [hoff]
    · next hon =>
      have hon : cfg.enabled ≠ some false := fun he => hon (by rw [he]; rfl)
      cases hkt : cfg.keyTemplate with
      | none => simp [required]
      | some keyTemplate =>
        cases hl : cfg.limit with
        | none => simp [required]
        | some limit =>
          cases hw : cfg.windowSecs with
          | none => simp [required]
          | some window =>
            simp [required, hon, checkAndIncrementIn_eq_none_iff]

end RateLimitMiddleware

/-! ## Expiry times -/

namespace CacheMiddleware

/-- A part sets the TTL when its key is `ttl`. -/
theorem ttl_of_parsePart (lc : LocalCfg) (part : String) :
    (parsePart lc part).ttl = Settings.fieldAfter "ttl" (Text.parseUnsigned 64) lc.ttl (Settings.setting part) := by
  unfold parsePart Settings.setting
  dsimp only
  by_cases he : (Text.trim part).isEmpty = true
  · rw [if_pos he, if_pos he, Settings.fieldAfter]
  · rw [if_neg he, if_neg he]
    cases Text.splitOnce ":" (Text.trim part) with
    | none => rw [Option.map_none, Settings.fieldAfter]
    | some kv =>
      obtain ⟨k, v⟩ := kv
      rw [Option.map_some, Settings.fieldAfter]
      dsimp only
      by_cases hk : Text.trim k = "enabled"
      · simp [hk]
      · rw [if_neg hk]
        by_cases hk : Text.trim k = "ttl"
        · rw [if_pos hk, if_pos hk]
        · rw [if_neg hk, if_neg hk]
          split <;> rfl

/-- The TTL of a `cache` step is read of the last `ttl` of its text. -/
theorem parseCfg_ttl (config : String) : (parseCfg config).ttl = (Settings.last "ttl" config).bind (Text.parseUnsigned 64) := by
  have hfold : (Settings.parts config).foldlM (fun lc part => some (parsePart lc part)) {} = some (parseCfg config) :=
    List.foldlM_pure
  have hstep : ∀ (lc : LocalCfg) (part : String) (lc' : LocalCfg), some (parsePart lc part) = some lc' →
      lc'.ttl = Settings.fieldAfter "ttl" (Text.parseUnsigned 64) lc.ttl (Settings.setting part) := by
    intro lc part lc' h
    rw [← Option.some.inj h]
    exact ttl_of_parsePart lc part
  rw [Settings.foldlM_lastSetting hstep hfold]
  unfold Settings.last Settings.all
  cases Settings.lastOf "ttl" ((Settings.parts config).filterMap Settings.setting) <;> rfl

/-- The TTL of a `cache` step by its text. -/
def configuredTtl {σ : Type} (env : ExecutionEnv σ) (config : String) : Nat :=
  ((Settings.last "ttl" config).bind (Text.parseUnsigned 64)).getD
    (((env.cacheConfig.get "defaultTtl").bind Value.asU64).getD 60)

/-- The TTL of a cache step is the configured one. -/
theorem effectiveTtl_parseCfg {σ : Type} (env : ExecutionEnv σ) (config : String) :
    effectiveTtl env (parseCfg config) = configuredTtl env config := by
  unfold effectiveTtl configuredTtl
  rw [parseCfg_ttl]

end CacheMiddleware

namespace CacheStore

open Build

/-- What a put makes of the store when it returns. -/
def put (b : Build) (s : CacheStore) (now : Nat) (key : String) (response : CachedResponse) (ttlSecs : Option Nat) :
    Option (PutOutcome × CacheStore) :=
  let r := s.putResponseIn b now key response ttlSecs
  if r.1 = .panicked then none else some r

/-- The put gets to the insertion: the response passes the first two checks and there is room for it. -/
def Inserts (s : CacheStore) (key : String) (response : CachedResponse) (ttlSecs : Option Nat) : Prop :=
  s.Admits response ttlSecs ∧ s.leftover key + estimateSize response.body ≤ s.maxTotalSize

/-- Only a put that inserts computes deadlines. -/
theorem put_cases (s : CacheStore) (now : Nat) (key : String) (response : CachedResponse) (ttlSecs : Option Nat) :
    (¬s.Inserts key response ttlSecs ∧ ∃ r, ∀ b, s.put b now key response ttlSecs = some r) ∨
      (s.Inserts key response ttlSecs ∧ ∃ f : Nat × Nat → PutOutcome × CacheStore,
        ∀ b, s.put b now key response ttlSecs = (s.deadlinesIn b now (ttlSecs.getD s.defaultTtlSecs)).map f) := by
  have hroom := makeRoom_fails_iff s key (estimateSize response.body)
  unfold put putResponseIn Inserts Admits
  dsimp only
  by_cases hzero : ttlSecs.getD s.defaultTtlSecs = 0
  · exact Or.inl ⟨fun h => h.1.1 hzero, (.ttlZero, s), fun b => by simp [hzero]⟩
  · by_cases hentry : s.maxEntrySize < estimateSize response.body
    · exact Or.inl ⟨fun h => Nat.not_lt.mpr h.1.2 hentry, (.entryTooLarge, s), fun b => by simp [hzero, hentry]⟩
    · simp only [if_neg hzero, if_neg hentry]
      by_cases htotal : s.maxTotalSize < (s.makeRoom key (estimateSize response.body)).1 + estimateSize response.body
      · refine Or.inl ⟨fun h => Nat.not_lt.mpr h.2 (hroom.mp htotal),
          (.totalTooLarge, s.withRoom (s.makeRoom key (estimateSize response.body))), fun b => ?_⟩
        rw [if_pos htotal]
        exact if_neg nofun
      · refine Or.inr ⟨⟨⟨hzero, Nat.not_lt.mp hentry⟩, Nat.not_lt.mp fun h => htotal (hroom.mpr h)⟩,
          fun d => (.stored, s.insertEntry (s.makeRoom key (estimateSize response.body)).1
            (s.makeRoom key (estimateSize response.body)).2 key (newEntry response d)), fun b => ?_⟩
        rw [if_neg htotal]
        cases s.deadlinesIn b now (ttlSecs.getD s.defaultTtlSecs) with
        | none => exact if_pos rfl
        | some d => exact if_neg nofun

/-- The builds agree on the deadlines of an entry. -/
theorem agrees_deadlinesIn (s : CacheStore) (now ttl : Nat) : Build.Agrees fun b => s.deadlinesIn b now ttl :=
  (agrees_u64 _).bind fun _ => agrees_const _

/-- The deadlines of a TTL are exact when the clock can represent the later one. -/
theorem exact_deadlines_iff (s : CacheStore) (now ttl : Nat) :
    Build.Exact (fun b => s.deadlinesIn b now ttl) ↔
      ttl + s.swrGraceSecs < 2 ^ 64 ∧ now + fromSecs (ttl + s.swrGraceSecs) ≤ s.clockMax := by
  have hle : fromSecs ttl ≤ fromSecs (ttl + s.swrGraceSecs) := Nat.mul_le_mul_right _ (Nat.le_add_right _ _)
  rw [(agrees_deadlinesIn s now ttl).exact_iff]
  unfold deadlinesIn u64
  dsimp only
  by_cases hsum : ttl + s.swrGraceSecs < 2 ^ 64
  · rw [if_pos hsum, Option.bind_some]
    by_cases hclock : now + fromSecs (ttl + s.swrGraceSecs) ≤ s.clockMax
    · have hfresh : now + fromSecs ttl ≤ s.clockMax := by omega
      rw [if_pos ⟨hfresh, hclock⟩]
      exact ⟨fun _ => ⟨hsum, hclock⟩, fun _ => nofun⟩
    · rw [if_neg fun h => hclock h.2]
      exact ⟨fun h => absurd rfl h, fun h => absurd h.2 hclock⟩
  · rw [if_neg hsum, Option.bind_none]
    exact ⟨fun h => absurd rfl h, fun h => absurd h.1 hsum⟩

/-- A put is exact when its deadlines are, if it computes them. -/
theorem exact_put_iff (s : CacheStore) (now : Nat) (key : String) (response : CachedResponse) (ttl : Nat) :
    Build.Exact (fun b => s.put b now key response (some ttl)) ↔
      (s.Inserts key response (some ttl) →
        ttl + s.swrGraceSecs < 2 ^ 64 ∧ now + fromSecs (ttl + s.swrGraceSecs) ≤ s.clockMax) := by
  rw [← exact_deadlines_iff]
  rcases put_cases s now key response (some ttl) with ⟨hnot, r, hr⟩ | ⟨hinserts, f, hf⟩
  · exact ⟨fun _ h => absurd h hnot, fun _ => ⟨r, hr⟩⟩
  · simp only [hf, Option.getD_some]
    rw [(agrees_deadlinesIn s now ttl).exact_map_iff f]
    exact ⟨fun h _ => h, fun h => h hinserts⟩

end CacheStore

/-- No arithmetic overflows on the way from a configuration to a limit or an expiry time exactly when the windows of the text are less
than 2^64 seconds, the limit and the burst are together less than 2^64, and the TTL and the grace are together less than 2^64 seconds and
within the range of the clock, each where it is computed. -/
theorem no_overflow_iff {σ : Type} (env : ExecutionEnv σ) (config : String) (now : Nat) (input : Value) (limits : RateLimitStore)
    (s : CacheStore) (key : String) (response : CachedResponse) :
    (Build.Exact (fun b => RateLimitMiddleware.execute b now config input limits) ↔
      RateLimitMiddleware.WindowsFit config ∧ (RateLimitMiddleware.Counts config → RateLimitMiddleware.LimitsFit config)) ∧
    (Build.Exact (fun b =>
        s.put b now key response (some (CacheMiddleware.effectiveTtl env (CacheMiddleware.parseCfg config)))) ↔
      (s.Inserts key response (some (CacheMiddleware.configuredTtl env config)) →
        CacheMiddleware.configuredTtl env config + s.swrGraceSecs < 2 ^ 64 ∧
          now + fromSecs (CacheMiddleware.configuredTtl env config + s.swrGraceSecs) ≤ s.clockMax)) := by
  constructor
  · rw [(RateLimitMiddleware.agrees_execute now config input limits).exact_iff, RateLimitMiddleware.execute_ne_none_iff]
  · rw [CacheMiddleware.effectiveTtl_parseCfg]
    exact s.exact_put_iff now key response _

/-- A window of a full 64-bit number of days. -/
def endlessWindow : String := "keyTemplate:k,limit:1,window:18446744073709551615d"

/-- The window is accepted, and its seconds overflow. -/
theorem window_of_days_overflows :
    ¬ ∀ config now input store, (∃ cfg, RateLimitMiddleware.parseConfig .release config = some cfg ∧ cfg.keyTemplate.isSome ∧
        cfg.limit.isSome ∧ cfg.windowSecs.isSome) →
      Build.Exact fun b => RateLimitMiddleware.execute b now config input store := by
  intro h
  have hparsed : RateLimitMiddleware.parseConfig .release endlessWindow =
      some { keyTemplate := some "k", limit := some 1, windowSecs := some 18446744073709465216 } := by
    decide +kernel
  obtain ⟨r, hr⟩ := h endlessWindow 0 .null (RateLimitStore.new 1) ⟨_, hparsed, rfl, rfl, rfl⟩
  have hpanic : RateLimitMiddleware.parseConfig .debug endlessWindow = none := by decide +kernel
  have hdebug : RateLimitMiddleware.execute .debug 0 endlessWindow .null (RateLimitStore.new 1) = some r := hr .debug
  rw [RateLimitMiddleware.execute, hpanic] at hdebug
  cases hdebug

end WebPipe
