import WebPipe.Migrations

/-!
# The two parts of a migration file

The markers are found in an upper-cased copy, and the text itself is cut at their offsets. The parts are what stands around the
markers exactly when upper-casing moves neither of them; the cuts are sound exactly when the offsets are those of characters.
-/

namespace WebPipe

open Text

variable (unicode : UnicodeTable)

/-! ## Markers in any letter case -/

/-- A marker, in any letter case. -/
def Spells (marker u : List Char) : Prop := u.map Char.toUpper = marker

instance (marker u : List Char) : Decidable (Spells marker u) := inferInstanceAs (Decidable (u.map Char.toUpper = marker))

section Spelled

variable {unicode} {marker u : List Char}

/-- Upper-casing takes no other character to ASCII. -/
theorem ascii_of_toUpper {c : Char} (h : c.toUpper.toNat < 128) : c.toNat < 128 := by
  by_contra hbig
  have hsame : c.toUpper = c := by
    unfold Char.toUpper
    have hle : ¬(c.val ≥ 97 ∧ c.val ≤ 122) := by
      rintro ⟨-, hhigh⟩
      have hle : c.toNat ≤ 122 := UInt32.le_iff_toNat_le.mp hhigh
      omega
    simp [hle]
  rw [hsame] at h
  exact hbig h

/-- A hyphen has no other case. -/
theorem toUpper_eq_hyphen {c : Char} (h : c.toUpper = '-') : c = '-' := by
  have hascii : c.toNat < 128 := ascii_of_toUpper (by rw [h]; decide)
  have hall : ∀ n < 128, (Char.ofNat n).toUpper = '-' → Char.ofNat n = '-' := by decide +kernel
  rw [← Char.ofNat_toNat c] at h ⊢
  exact hall _ hascii h

/-- What spells a marker of ASCII is ASCII. -/
theorem Spells.ascii (h : Spells marker u) (hmarker : ∀ c ∈ marker, c.toNat < 128) : ∀ c ∈ u, c.toNat < 128 := by
  intro c hc
  exact ascii_of_toUpper (hmarker _ (h ▸ List.mem_map_of_mem hc))

/-- A marker in any letter case is the marker in the upper-cased copy. -/
theorem Spells.upper (h : Spells marker u) (hmarker : ∀ c ∈ marker, c.toNat < 128) : unicode.upper u = marker := by
  have hascii := h.ascii hmarker
  rw [← h, UnicodeTable.upper, List.flatMap_congr fun c hc => unicode.ascii c (hascii c hc), List.map_eq_flatMap]

/-- Text of ASCII has a byte for each character. -/
theorem utf8Len_of_ascii {l : List Char} (h : ∀ c ∈ l, c.toNat < 128) : utf8Len l = l.length := by
  induction l with
  | nil => rfl
  | cons c l ih =>
    have hc := h c (List.mem_cons_self ..)
    have hsize : c.utf8Size = 1 := Char.utf8Size_eq_one_iff.mpr (by
      rw [UInt32.le_iff_toNat_le]
      simp only [Char.toNat] at hc
      exact Nat.le_of_lt_succ hc)
    rw [utf8Len_cons, hsize, ih fun d hd => h d (List.mem_cons_of_mem _ hd), List.length_cons]
    omega

/-- What spells a marker has as many characters. -/
theorem Spells.length (h : Spells marker u) : u.length = marker.length := by
  rw [← h, List.length_map]

/-- What spells a marker of ASCII has as many bytes. -/
theorem Spells.utf8Len (h : Spells marker u) (hmarker : ∀ c ∈ marker, c.toNat < 128) : WebPipe.utf8Len u = WebPipe.utf8Len marker := by
  rw [utf8Len_of_ascii (h.ascii hmarker), utf8Len_of_ascii hmarker, h.length]

end Spelled

theorem upper_append (l l' : List Char) : unicode.upper (l ++ l') = unicode.upper l ++ unicode.upper l' := List.flatMap_append

/-- A text of ASCII, checked character by character. -/
theorem ascii_of_all {l : List Char} (h : l.all (fun c => decide (c.toNat < 128)) = true) : ∀ c ∈ l, c.toNat < 128 :=
  fun c hc => of_decide_eq_true (forall_mem_of_all h c hc)

theorem upMarker_ascii : ∀ c ∈ upMarker, c.toNat < 128 := ascii_of_all (by decide)

theorem downMarker_ascii : ∀ c ∈ downMarker, c.toNat < 128 := ascii_of_all (by decide)

/-! ## The split -/

section Split

variable {unicode} {p u a d b : List Char}

/-- A content in parts: one marker of each kind, in any letter case, and no other. -/
structure Marked (unicode : UnicodeTable) (p u a d b : List Char) : Prop where
  up : Spells upMarker u
  down : Spells downMarker d
  onlyUp : ∀ x y, unicode.upper (p ++ u ++ a ++ d ++ b) = x ++ upMarker ++ y → x.length = (unicode.upper p).length
  onlyDown : ∀ x y, unicode.upper (p ++ u ++ a ++ d ++ b) = x ++ downMarker ++ y → x.length = (unicode.upper (p ++ u ++ a)).length

/-- The upper-cased file has the markers between its parts. -/
theorem Marked.upper_eq (h : Marked unicode p u a d b) : unicode.upper (p ++ u ++ a ++ d ++ b) =
    unicode.upper p ++ upMarker ++ unicode.upper a ++ downMarker ++ unicode.upper b := by
  simp only [upper_append, h.up.upper upMarker_ascii, h.down.upper downMarker_ascii]

/-- The first marker is found after the upper-cased text before it. -/
theorem Marked.findUp (h : Marked unicode p u a d b) :
    findText upMarker (unicode.upper (p ++ u ++ a ++ d ++ b)) = some (utf8Len (unicode.upper p)) := by
  refine findText_eq_some_iff.mpr ⟨unicode.upper p, unicode.upper a ++ downMarker ++ unicode.upper b, ⟨?_, ?_⟩, rfl⟩
  · rw [h.upper_eq]
    simp only [List.append_assoc]
  · intro x y hxy
    exact (h.onlyUp x y hxy).ge

/-- The second marker is found after the upper-cased first part. -/
theorem Marked.findDown (h : Marked unicode p u a d b) : findText downMarker (unicode.upper (p ++ u ++ a ++ d ++ b)) =
    some (utf8Len (unicode.upper p) + utf8Len upMarker + utf8Len (unicode.upper a)) := by
  have hlen : utf8Len (unicode.upper (p ++ u ++ a)) = utf8Len (unicode.upper p) + utf8Len upMarker + utf8Len (unicode.upper a) := by
    simp only [upper_append, h.up.upper upMarker_ascii, utf8Len_append]
  refine findText_eq_some_iff.mpr ⟨unicode.upper (p ++ u ++ a), unicode.upper b, ⟨?_, ?_⟩, hlen⟩
  · rw [upper_append, upper_append, h.down.upper downMarker_ascii]
  · intro x y hxy
    exact (h.onlyDown x y hxy).ge

/-- The two parts that are cut out, trimmed. -/
def trimmedParts (up down : Option (List Char)) : Except MigrateFailure (String × String) := do
  let upSql ← orPanic up
  let downSql ← orPanic down
  pure (trim upSql, trim downSql)

/-- Both cuts are made, and both parts trimmed. -/
theorem trimmedParts_eq_ok_iff {up down : Option (List Char)} {r : String × String} :
    trimmedParts up down = .ok r ↔ ∃ m y, up = some m ∧ down = some y ∧ r = (trim (String.ofList m), trim (String.ofList y)) := by
  cases up <;> cases down <;> simp [trimmedParts, orPanic, bind, Except.bind, pure, Except.pure, eq_comm]

/-- The parts are read without a panic exactly when both cuts are made. -/
theorem trimmedParts_panics_iff {up down : Option (List Char)} :
    trimmedParts up down ≠ .error .panic ↔ up ≠ none ∧ down ≠ none := by
  cases up <;> cases down <;> simp [trimmedParts, orPanic, bind, Except.bind, pure, Except.pure]

/-- The text is cut at the offsets of the upper-cased parts. -/
theorem Marked.parse_eq (h : Marked unicode p u a d b) :
    parseMigrationContent unicode (String.ofList (p ++ u ++ a ++ d ++ b)) =
      trimmedParts (slice (utf8Len (unicode.upper p) + utf8Len upMarker)
          (utf8Len (unicode.upper p) + utf8Len upMarker + utf8Len (unicode.upper a)) (p ++ u ++ a ++ d ++ b))
        (sliceFrom (utf8Len (unicode.upper p) + utf8Len upMarker + utf8Len (unicode.upper a) + utf8Len downMarker)
          (p ++ u ++ a ++ d ++ b)) := by
  have hmarker : utf8Len upMarker = 8 := by decide
  unfold parseMigrationContent
  rw [String.toList_ofList]
  dsimp only
  rw [h.findUp, h.findDown]
  dsimp only
  rw [if_neg (by omega)]
  rfl

/-- The file is read as its two parts. -/
def ReadsParts (unicode : UnicodeTable) (p u a d b : List Char) : Prop :=
  parseMigrationContent unicode (String.ofList (p ++ u ++ a ++ d ++ b)) = .ok (trim (String.ofList a), trim (String.ofList b))

theorem trim_ofList_eq_iff {s : String} {l : List Char} : trim s = trim (String.ofList l) ↔ trimChars s.toList = trimChars l := by
  rw [trim, trim, String.toList_ofList, String.ofList_inj]

/-- What is read, by the cuts that are made. -/
theorem Marked.readsParts_iff (h : Marked unicode p u a d b) : ReadsParts unicode p u a d b ↔
    (∃ m, slice (utf8Len (unicode.upper p) + utf8Len upMarker)
        (utf8Len (unicode.upper p) + utf8Len upMarker + utf8Len (unicode.upper a)) (p ++ u ++ a ++ d ++ b) = some m ∧
      trimChars m = trimChars a) ∧
    ∃ y, sliceFrom (utf8Len (unicode.upper p) + utf8Len upMarker + utf8Len (unicode.upper a) + utf8Len downMarker)
        (p ++ u ++ a ++ d ++ b) = some y ∧ trimChars y = trimChars b := by
  rw [ReadsParts, h.parse_eq, trimmedParts_eq_ok_iff]
  constructor
  · rintro ⟨m, y, hm, hy, heq⟩
    rw [Prod.mk.injEq, trim_ofList_eq_iff, trim_ofList_eq_iff, String.toList_ofList, String.toList_ofList] at heq
    exact ⟨⟨m, hm, heq.1.symm⟩, y, hy, heq.2.symm⟩
  · rintro ⟨⟨m, hm, htrim⟩, y, hy, htrim'⟩
    refine ⟨m, y, hm, hy, ?_⟩
    rw [Prod.mk.injEq, trim_ofList_eq_iff, trim_ofList_eq_iff, String.toList_ofList, String.toList_ofList]
    exact ⟨htrim.symm, htrim'.symm⟩

/-- Upper-casing moves neither marker, but for white space at the start of the first part. -/
def Aligned (unicode : UnicodeTable) (p a : List Char) : Prop :=
  utf8Len (unicode.upper p) + utf8Len (unicode.upper a) = utf8Len p + utf8Len a ∧
    ∃ blanks sql, a = blanks ++ sql ∧ (∀ c ∈ blanks, isWhitespace c = true) ∧ utf8Len (unicode.upper p) = utf8Len p + utf8Len blanks

/-- Where upper-casing moves no marker, the parts are read. -/
theorem Marked.readsParts_of_aligned (h : Marked unicode p u a d b) (haligned : Aligned unicode p a) : ReadsParts unicode p u a d b := by
  obtain ⟨hsum, blanks, sql, rfl, hblanks, hp⟩ := haligned
  have hu := h.up.utf8Len upMarker_ascii
  have hd := h.down.utf8Len downMarker_ascii
  rw [utf8Len_append] at hsum
  refine h.readsParts_iff.mpr ⟨⟨sql, slice_eq_some_iff.mpr ⟨p ++ u ++ blanks, d ++ b, ?_, ?_, ?_⟩, ?_⟩, b, sliceFrom_eq_some_iff.mpr ⟨p ++ u ++ (blanks ++ sql) ++ d, ?_, ?_⟩, rfl⟩
  · simp only [List.append_assoc]
  · simp only [utf8Len_append]
    omega
  · simp only [utf8Len_append]
    omega
  · exact (trimChars_blanks hblanks sql).symm
  · simp only [List.append_assoc]
  · simp only [utf8Len_append]
    omega

/-- Text that is trimmed to nothing does not end in a visible character. -/
theorem visible_of_getLast? {l : List Char} {c : Char} (h : l.getLast? = some c) (hc : isWhitespace c = false) : visible l ≠ 0 := by
  intro hzero
  have hblank := visible_eq_zero.mp hzero c (List.mem_of_getLast? h)
  rw [hc] at hblank
  cases hblank

/-- A marker ends in a visible character. -/
theorem Spells.getLast? {marker u : List Char} (h : Spells marker u) (hmarker : marker.getLast? = some '-') : u.getLast? = some '-' := by
  rw [← h, List.getLast?_map, Option.map_eq_some_iff] at hmarker
  obtain ⟨c, hlast, hc⟩ := hmarker
  rw [hlast, toUpper_eq_hyphen hc]

/-- An end of a text that ends in a marker holds something visible, unless it is empty. -/
theorem suffix_of_marker {marker u l t : List Char} (h : Spells marker u) (hmarker : marker.getLast? = some '-') (ht : t <:+ l ++ u)
    (hvisible : visible t = 0) : t = [] := by
  obtain ⟨x, hx⟩ := ht
  by_contra hne
  have hlast : t.getLast? = some '-' := by
    have hends := congrArg List.getLast? hx
    rw [List.getLast?_append_of_ne_nil _ hne] at hends
    rw [hends, List.getLast?_append, h.getLast? hmarker]
    rfl
  exact visible_of_getLast? hlast (by decide) hvisible

/-- Where the parts are read, upper-casing moves no marker but for blanks. -/
theorem Marked.aligned_of_readsParts (h : Marked unicode p u a d []) (hreads : ReadsParts unicode p u a d []) : Aligned unicode p a := by
  have hu := h.up.utf8Len upMarker_ascii
  have hd := h.down.utf8Len downMarker_ascii
  obtain ⟨⟨m, hm, htrim⟩, y, hy, htrim'⟩ := h.readsParts_iff.mp hreads
  rw [List.append_nil] at hm hy
  obtain ⟨x, z, hcontent, hx, hxm⟩ := slice_eq_some_iff.mp hm
  obtain ⟨w, hcontent', hw⟩ := sliceFrom_eq_some_iff.mp hy
  -- nothing is left after the second cut, or it would show the end of the marker
  have hynil : y = [] := by
    refine suffix_of_marker h.down (by decide) ⟨w, hcontent'.symm⟩ ?_
    rw [← visible_trimChars, htrim']
    rfl
  have hsum : utf8Len (unicode.upper p) + utf8Len (unicode.upper a) = utf8Len p + utf8Len a := by
    have hlen := congrArg utf8Len hcontent'
    rw [hynil, List.append_nil, hw] at hlen
    simp only [utf8Len_append] at hlen
    omega
  refine ⟨hsum, ?_⟩
  -- so the first cut ends where the first part does
  have hfront : p ++ u ++ a = x ++ m := by
    refine (@split_unique _ d _ z hcontent ?_).1
    rw [hxm]
    simp only [utf8Len_append]
    omega
  have hvisible : visible m = visible a := by
    rw [← visible_trimChars m, htrim, visible_trimChars]
  rcases List.append_eq_append_iff.mp hfront with ⟨blanks, rfl, rfl⟩ | ⟨t, hpu, rfl⟩
  · refine ⟨blanks, m, rfl, ?_, ?_⟩
    · rw [visible_append] at hvisible
      exact visible_eq_zero.mp (by omega)
    · simp only [utf8Len_append] at hx
      omega
  · have hnil : t = [] := by
      refine suffix_of_marker h.up (by decide) ⟨x, hpu.symm⟩ ?_
      rw [visible_append] at hvisible
      omega
    refine ⟨[], a, rfl, nofun, ?_⟩
    have hlen := congrArg utf8Len hpu
    rw [hnil, List.append_nil, hx, utf8Len_append] at hlen
    rw [utf8Len_eq_zero.mpr rfl]
    omega

end Split

/-! ## Sound cuts -/

/-- The offsets of the markers in the upper-cased copy cut the text between characters, and in order. -/
def CutsFit (unicode : UnicodeTable) (content : List Char) : Prop :=
  ∀ x y x' y', FirstAt upMarker (unicode.upper content) x y → FirstAt downMarker (unicode.upper content) x' y' →
    utf8Len x < utf8Len x' → utf8Len (x ++ upMarker) ≤ utf8Len x' ∧ IsBoundary (utf8Len (x ++ upMarker)) content ∧
      IsBoundary (utf8Len x') content ∧ IsBoundary (utf8Len (x' ++ downMarker)) content

/-- A text has one first occurrence of another. -/
theorem firstAt_unique {pat l x y x' y' : List Char} (h : FirstAt pat l x y) (h' : FirstAt pat l x' y') : x = x' ∧ y = y' := by
  have hsplit := splitOnceChars_eq_some_iff.mpr h
  rw [splitOnceChars_eq_some_iff.mpr h'] at hsplit
  cases hsplit
  exact ⟨rfl, rfl⟩

/-- The text is cut between characters, or not cut at all. -/
theorem parse_sound_iff (content : String) :
    parseMigrationContent unicode content ≠ .error .panic ↔ CutsFit unicode content.toList := by
  unfold parseMigrationContent
  dsimp only
  cases hup : findText upMarker (unicode.upper content.toList) with
  | none =>
    refine iff_of_true (by simp) fun x y _ _ hx => ?_
    have hfound := findText_eq_some_iff.mpr ⟨x, y, hx, rfl⟩
    rw [hup] at hfound
    cases hfound
  | some upStart =>
    cases hdown : findText downMarker (unicode.upper content.toList) with
    | none =>
      refine iff_of_true (by simp) fun _ _ x' y' _ hx' => ?_
      have hfound := findText_eq_some_iff.mpr ⟨x', y', hx', rfl⟩
      rw [hdown] at hfound
      cases hfound
    | some downStart =>
      obtain ⟨x, y, hx, rfl⟩ := findText_eq_some_iff.mp hup
      obtain ⟨x', y', hx', rfl⟩ := findText_eq_some_iff.mp hdown
      have hfit : CutsFit unicode content.toList ↔ (utf8Len x < utf8Len x' → utf8Len (x ++ upMarker) ≤ utf8Len x' ∧
          IsBoundary (utf8Len (x ++ upMarker)) content.toList ∧ IsBoundary (utf8Len x') content.toList ∧
            IsBoundary (utf8Len (x' ++ downMarker)) content.toList) := by
        constructor
        · intro h
          exact h x y x' y' hx hx'
        · intro h z w z' w' hz hz'
          obtain ⟨rfl, -⟩ := firstAt_unique hx hz
          obtain ⟨rfl, -⟩ := firstAt_unique hx' hz'
          exact h
      rw [hfit]
      dsimp only
      split
      · next hle => exact iff_of_true (by simp) fun hlt => absurd hlt (by omega)
      · next hlt =>
        have hparts := @trimmedParts_panics_iff (slice (utf8Len x + utf8Len upMarker) (utf8Len x') content.toList)
          (sliceFrom (utf8Len x' + utf8Len downMarker) content.toList)
        rw [slice_ne_none_iff, sliceFrom_ne_none_iff, and_assoc, and_assoc, ← utf8Len_append, ← utf8Len_append] at hparts
        refine Iff.trans ?_ (hparts.trans ⟨fun h _ => h, fun h => h (by omega)⟩)
        rw [utf8Len_append, utf8Len_append]
        rfl

/-- An offset in the upper-cased copy of ASCII text is one in the text. -/
theorem isBoundary_of_ascii {content z : List Char} (h : ∀ c ∈ content, c.toNat < 128) (hz : z <+: unicode.upper content) :
    IsBoundary (utf8Len z) content := by
  have hupper : unicode.upper content = content.map Char.toUpper := by
    rw [UnicodeTable.upper, List.flatMap_congr fun c hc => unicode.ascii c (h c hc), List.map_eq_flatMap]
  have hsmall : ∀ n < 128, (Char.ofNat n).toUpper.toNat < 128 := by decide +kernel
  have hascii : ∀ c ∈ z, c.toNat < 128 := by
    intro c hc
    have hmem := hz.subset hc
    rw [hupper] at hmem
    obtain ⟨d, hd, rfl⟩ := List.mem_map.mp hmem
    rw [← Char.ofNat_toNat d]
    exact hsmall _ (h d hd)
  have hle := hz.length_le
  rw [hupper, List.length_map] at hle
  refine ⟨content.take z.length, List.take_prefix _ _, ?_⟩
  rw [utf8Len_of_ascii fun c hc => h c (List.mem_of_mem_take hc), utf8Len_of_ascii hascii, List.length_take]
  omega

/-- ASCII text is cut soundly exactly when the second marker does not start inside the first. -/
theorem cutsFit_of_ascii {content : List Char} (h : ∀ c ∈ content, c.toNat < 128) : CutsFit unicode content ↔
    ∀ x y x' y', FirstAt upMarker (unicode.upper content) x y → FirstAt downMarker (unicode.upper content) x' y' →
      utf8Len x < utf8Len x' → utf8Len (x ++ upMarker) ≤ utf8Len x' := by
  constructor
  · intro hfit x y x' y' hx hx' hlt
    exact (hfit x y x' y' hx hx' hlt).1
  · intro hapart x y x' y' hx hx' hlt
    refine ⟨hapart x y x' y' hx hx' hlt, ?_, ?_, ?_⟩
    · exact isBoundary_of_ascii unicode h ⟨y, hx.1.symm⟩
    · exact isBoundary_of_ascii unicode h ⟨downMarker ++ y', by rw [← List.append_assoc]; exact hx'.1.symm⟩
    · exact isBoundary_of_ascii unicode h ⟨y', hx'.1.symm⟩

/-- A file is read as its two parts, whatever the second, exactly when upper-casing moves neither marker, but for white space that is
trimmed; and no file is cut unsoundly exactly when the offsets in the upper-cased copy fit the text. -/
theorem migration_content_iff :
    (∀ p u a d, Marked unicode p u a d [] → ((∀ b, Marked unicode p u a d b → ReadsParts unicode p u a d b) ↔ Aligned unicode p a)) ∧
      ∀ content, parseMigrationContent unicode content ≠ .error .panic ↔ CutsFit unicode content.toList := by
  refine ⟨fun p u a d h => ⟨?_, ?_⟩, parse_sound_iff unicode⟩
  · intro hreads
    exact h.aligned_of_readsParts (hreads [] h)
  · intro haligned b hb
    exact hb.readsParts_of_aligned haligned

/-! ## A dotless letter -/

/-- Letters of ASCII, the dotless i, and an accented letter. -/
def turkish : UnicodeTable where
  toUppercase c := if c = 'ı' then ['I'] else if c = 'é' then ['É'] else [c.toUpper]
  isNumeric := isDigit
  ascii c hc := by
    have hne : ∀ d : Char, ¬ d.toNat < 128 → c ≠ d := fun d hd h => hd (h ▸ hc)
    rw [if_neg (hne 'ı' (by decide)), if_neg (hne 'é' (by decide))]

/-- An occurrence at one place only, by looking at every place. -/
theorem only_of_forall {pat l : List Char} {n : ℕ} (h : ∀ i < l.length + 1, pat.isPrefixOf (l.drop i) = true → i = n) (x y : List Char)
    (hl : l = x ++ pat ++ y) : x.length = n := by
  refine h x.length (by rw [hl]; simp only [List.length_append]; omega) (List.isPrefixOf_iff_prefix.mpr ⟨y, ?_⟩)
  rw [hl, List.append_assoc, List.drop_left]

/-- The dotless i in the first line is one byte shorter in upper case. -/
theorem dotless_marked : Marked turkish "ı".toList upMarker "A".toList downMarker "B".toList where
  up := by decide
  down := by decide
  onlyUp := only_of_forall (by decide +kernel)
  onlyDown := only_of_forall (by decide +kernel)

/-- Markers in small letters, and no letter that changes its length. -/
theorem plain_file_read : ReadsParts turkish "é".toList "-- up --".toList " A".toList "-- down --".toList "B".toList := by
  have h : Marked turkish "é".toList "-- up --".toList " A".toList "-- down --".toList [] :=
    { up := by decide, down := by decide, onlyUp := only_of_forall (by decide +kernel), onlyDown := only_of_forall (by decide +kernel) }
  refine ((migration_content_iff turkish).1 _ _ _ _ h).mpr ⟨by decide +kernel, [], _, rfl, nofun, by decide +kernel⟩ _ ?_
  exact { up := by decide, down := by decide, onlyUp := only_of_forall (by decide +kernel), onlyDown := only_of_forall (by decide +kernel) }

/-- The dotless i shifts both cuts into the markers; overlapping markers make the first cut end before it starts. -/
theorem dotless_shifts_cuts : (¬∀ p u a d b, Marked turkish p u a d b → ReadsParts turkish p u a d b) ∧
    ¬∀ content, parseMigrationContent turkish content ≠ .error .panic := by
  constructor
  · intro h
    have hread := h _ _ _ _ _ dotless_marked
    exact absurd hread (by unfold ReadsParts; decide +kernel)
  · intro h
    exact h "-- UP -- DOWN --" (by decide +kernel)

end WebPipe
