import Mathlib.Data.List.Infix
import Mathlib.Data.List.TakeWhile

/-!
# Parser combinators

A parser takes a text and answers a result and the text that is left, or fails: with an `error`, from which an alternative recovers, or
with a `failure`, from which nothing does. The combinators are those of the `nom` library on complete input. `Suffix` and `Eats` say that a
parser leaves an end of its text, and a shorter one, `Yields` that its results have a property, and `Recovers` that it does not fail for
good; all pass through every combinator.
-/

namespace Nom

/-- How a parser fails. -/
inductive Err where
  | error
  | failure
deriving DecidableEq, Repr

/-- A parser of results of a type. -/
abbrev Parser (α : Type) : Type := List Char → Except Err (α × List Char)

instance : Monad Parser where
  pure a := fun l => .ok (a, l)
  bind p f := fun l =>
    match p l with
    | .ok (a, l') => f a l'
    | .error e => .error e

section Combinators

variable {α β : Type}

/-- The parser that fails. -/
def fail : Parser α := fun _ => .error .error

/-- The parser that fails so that no alternative is tried. -/
def abort : Parser α := fun _ => .error .failure

/-- The text that is left, which stays. -/
def rest : Parser (List Char) := fun l => .ok (l, l)

/-- One character. -/
def char (c : Char) : Parser Unit
  | [] => .error .error
  | a :: l => if a = c then .ok ((), l) else .error .error

/-- A text. -/
def tag (t : String) : Parser String := fun l =>
  if t.toList.isPrefixOf l then .ok (t, l.drop t.toList.length) else .error .error

/-- A number of characters. -/
def take (n : Nat) : Parser (List Char) := fun l => if n ≤ l.length then .ok (l.take n, l.drop n) else .error .error

/-- The characters with a property, up to the first without it. -/
def takeWhile (p : Char → Bool) : Parser (List Char) := fun l => .ok (l.takeWhile p, l.dropWhile p)

/-- At least one character with a property. -/
def takeWhile1 (p : Char → Bool) : Parser (List Char) := fun l =>
  if (l.takeWhile p).isEmpty then .error .error else .ok (l.takeWhile p, l.dropWhile p)

/-- The text up to the first occurrence of a character, which stays. -/
def takeUntil (c : Char) : Parser (List Char) := fun l =>
  if c ∈ l then .ok (l.takeWhile (· != c), l.dropWhile (· != c)) else .error .error

/-- What a parser gives, or nothing where it has an error. -/
def opt (p : Parser α) : Parser (Option α) := fun l =>
  match p l with
  | .ok (a, l') => .ok (some a, l')
  | .error .error => .ok (none, l)
  | .error .failure => .error .failure

/-- The second parser where the first has an error. -/
def alt (p q : Parser α) : Parser α := fun l =>
  match p l with
  | .ok r => .ok r
  | .error .error => q l
  | .error .failure => .error .failure

/-- A parser again and again, with one unit of fuel for each time, until it has an error. A parser that leaves as much text as it was
given would go on for ever, which is an error. -/
def many0Loop (p : Parser α) : Nat → Parser (List α)
  | 0, _ => .error .error
  | n + 1, l =>
    match p l with
    | .error .error => .ok ([], l)
    | .error .failure => .error .failure
    | .ok (a, l') =>
      if l'.length = l.length then .error .error
      else
        match many0Loop p n l' with
        | .ok (as, r) => .ok (a :: as, r)
        | .error e => .error e

/-- A parser again and again, until it has an error. -/
def many0 (p : Parser α) : Parser (List α) := fun l => many0Loop p (l.length + 1) l

/-- A parser between two others. -/
def delimited {γ : Type} (o : Parser β) (p : Parser α) (c : Parser γ) : Parser α := do
  let _ ← o
  let a ← p
  let _ ← c
  pure a

/-- A parser after another. -/
def preceded (o : Parser β) (p : Parser α) : Parser α := do
  let _ ← o
  p

/-- A parser at least once, with a separator between two times. -/
def separatedList1 (sep : Parser β) (p : Parser α) : Parser (List α) := do
  let a ← p
  let as ← many0 (preceded sep p)
  pure (a :: as)

/-- The text that a parser takes. -/
def recognize (p : Parser α) : Parser (List Char) := fun l =>
  match p l with
  | .ok (_, l') => .ok (l.take (l.length - l'.length), l')
  | .error e => .error e

end Combinators

/-- The white space of `multispace0`. -/
def isMultispace (c : Char) : Bool := c = ' ' || c = '\t' || c = '\r' || c = '\n'

/-- White space, if any. -/
def multispace0 : Parser (List Char) := takeWhile isMultispace

/-- White space. -/
def multispace1 : Parser (List Char) := takeWhile1 isMultispace

/-! ## Results -/

section Results

variable {α β : Type} {l r : List Char}

@[simp] theorem pure_apply (a : α) (l : List Char) : (pure a : Parser α) l = .ok (a, l) := rfl

theorem bind_of_ok {p : Parser α} {a : α} {l' : List Char} (h : p l = .ok (a, l')) (f : α → Parser β) : (p >>= f) l = f a l' := by
  change (match p l with | .ok (a, l') => f a l' | .error e => .error e) = f a l'
  rw [h]

theorem bind_of_error {p : Parser α} {e : Err} (h : p l = .error e) (f : α → Parser β) : (p >>= f) l = .error e := by
  change (match p l with | .ok (a, l') => f a l' | .error e => .error e) = .error e
  rw [h]

theorem bind_eq_ok {p : Parser α} {f : α → Parser β} {b : β} (h : (p >>= f) l = .ok (b, r)) :
    ∃ a l', p l = .ok (a, l') ∧ f a l' = .ok (b, r) := by
  cases hp : p l with
  | error e =>
    rw [bind_of_error hp] at h
    cases h
  | ok x =>
    obtain ⟨a, l'⟩ := x
    rw [bind_of_ok hp] at h
    exact ⟨a, l', rfl, h⟩

@[simp] theorem char_self (c : Char) (l : List Char) : char c (c :: l) = .ok ((), l) := if_pos rfl

theorem char_of_ne {a c : Char} (h : a ≠ c) (l : List Char) : char c (a :: l) = .error .error := if_neg h

theorem char_eq_ok {c : Char} {u : Unit} (h : char c l = .ok (u, r)) : l = c :: r := by
  cases l with
  | nil => cases h
  | cons a l =>
    by_cases hc : a = c
    · rw [hc, char_self] at h
      cases h
      rw [hc]
    · rw [char_of_ne hc] at h
      cases h

@[simp] theorem tag_append (t : String) (l : List Char) : tag t (t.toList ++ l) = .ok (t, l) := by
  have hprefix : t.toList.isPrefixOf (t.toList ++ l) = true := by simp
  simp [tag, hprefix]

theorem tag_eq_ok {t t' : String} (h : tag t l = .ok (t', r)) : l = t.toList ++ r ∧ t' = t := by
  unfold tag at h
  split at h
  · next hprefix =>
    cases h
    obtain ⟨s, rfl⟩ := List.isPrefixOf_iff_prefix.mp hprefix
    simp
  · cases h

theorem tag_eq_error {t : String} (h : ¬t.toList <+: l) : tag t l = .error .error :=
  if_neg fun hp => h (List.isPrefixOf_iff_prefix.mp hp)

theorem takeWhile1_eq_ok {p : Char → Bool} {t : List Char} (h : takeWhile1 p l = .ok (t, r)) :
    l = t ++ r ∧ t ≠ [] ∧ (∀ c ∈ t, p c = true) ∧ ∀ c l', r = c :: l' → p c = false := by
  unfold takeWhile1 at h
  split at h
  · cases h
  · next hne =>
    cases h
    refine ⟨(List.takeWhile_append_dropWhile ..).symm, fun he => hne (by simp [he]), fun c hc => List.mem_takeWhile_imp hc,
      fun c l' hr => ?_⟩
    have hhead := List.head?_dropWhile_not p l
    rw [hr] at hhead
    simpa using hhead

theorem opt_of_ok {p : Parser α} {a : α} {l' : List Char} (h : p l = .ok (a, l')) : opt p l = .ok (some a, l') := by
  simp [opt, h]

theorem opt_of_error {p : Parser α} (h : p l = .error .error) : opt p l = .ok (none, l) := by simp [opt, h]

theorem alt_of_ok {p q : Parser α} {x : α × List Char} (h : p l = .ok x) : alt p q l = .ok x := by simp [alt, h]

theorem alt_of_error {p q : Parser α} (h : p l = .error .error) : alt p q l = q l := by simp [alt, h]

theorem opt_eq_ok {p : Parser α} {o : Option α} (h : opt p l = .ok (o, r)) :
    (∃ a, o = some a ∧ p l = .ok (a, r)) ∨ (o = none ∧ r = l ∧ p l = .error .error) := by
  unfold opt at h
  split at h
  · next a l' hp =>
    cases h
    exact Or.inl ⟨a, rfl, hp⟩
  · next hp =>
    cases h
    exact Or.inr ⟨rfl, rfl, hp⟩
  · cases h

theorem alt_eq_ok {p q : Parser α} {x : α × List Char} (h : alt p q l = .ok x) : p l = .ok x ∨ (p l = .error .error ∧ q l = .ok x) := by
  unfold alt at h
  split at h
  · next y hp =>
    cases h
    exact Or.inl hp
  · next hp => exact Or.inr ⟨hp, h⟩
  · cases h

/-- Two texts that agree up to the first character without a property are taken alike. -/
theorem takeWhile_append_of {p : Char → Bool} {t : List Char} (ht : ∀ c ∈ t, p c = true) (hr : ∀ c l', r = c :: l' → p c = false) :
    (t ++ r).takeWhile p = t ∧ (t ++ r).dropWhile p = r := by
  rw [List.takeWhile_append_of_pos ht, List.dropWhile_append_of_pos ht]
  cases r with
  | nil => simp
  | cons c l' => simp [hr c l' rfl]

end Results

/-! ## What is left -/

section Left

variable {α β γ : Type}

/-- The text that is left is an end of the text. -/
def Suffix (p : Parser α) : Prop := ∀ l a r, p l = .ok (a, r) → r <:+ l

/-- The text that is left is a shorter end of the text. -/
def Eats (p : Parser α) : Prop := ∀ l a r, p l = .ok (a, r) → r <:+ l ∧ r.length < l.length

theorem Eats.suffix {p : Parser α} (h : Eats p) : Suffix p := fun l a r hp => (h l a r hp).1

theorem suffix_pure (a : α) : Suffix (pure a : Parser α) := by
  intro l b r h
  cases h
  exact List.suffix_rfl

theorem suffix_fail : Suffix (fail : Parser α) := nofun

theorem suffix_abort : Suffix (abort : Parser α) := nofun

theorem Suffix.bind {p : Parser α} {f : α → Parser β} (hp : Suffix p) (hf : ∀ a, Suffix (f a)) : Suffix (p >>= f) := by
  intro l b r h
  obtain ⟨a, l', ha, hb⟩ := bind_eq_ok h
  exact (hf a l' b r hb).trans (hp l a l' ha)

theorem Eats.bind {p : Parser α} {f : α → Parser β} (hp : Eats p) (hf : ∀ a, Suffix (f a)) : Eats (p >>= f) := by
  intro l b r h
  obtain ⟨a, l', ha, hb⟩ := bind_eq_ok h
  have hsuffix := hf a l' b r hb
  exact ⟨hsuffix.trans (hp l a l' ha).1, Nat.lt_of_le_of_lt hsuffix.length_le (hp l a l' ha).2⟩

theorem Suffix.bind_eats {p : Parser α} {f : α → Parser β} (hp : Suffix p) (hf : ∀ a, Eats (f a)) : Eats (p >>= f) := by
  intro l b r h
  obtain ⟨a, l', ha, hb⟩ := bind_eq_ok h
  have hsuffix := hp l a l' ha
  exact ⟨(hf a l' b r hb).1.trans hsuffix, Nat.lt_of_lt_of_le (hf a l' b r hb).2 hsuffix.length_le⟩

theorem suffix_rest : Suffix rest := by
  intro l a r h
  cases h
  exact List.suffix_rfl

theorem eats_char (c : Char) : Eats (char c) := by
  intro l a r h
  rw [char_eq_ok h]
  exact ⟨List.suffix_cons .., by simp⟩

theorem suffix_tag (t : String) : Suffix (tag t) := by
  intro l a r h
  rw [(tag_eq_ok h).1]
  exact List.suffix_append ..

theorem eats_tag {t : String} (ht : t.toList ≠ []) : Eats (tag t) := by
  intro l a r h
  rw [(tag_eq_ok h).1]
  refine ⟨List.suffix_append .., ?_⟩
  have hpos := List.length_pos_of_ne_nil ht
  rw [List.length_append]
  omega

theorem suffix_take (n : Nat) : Suffix (take n) := by
  intro l a r h
  unfold take at h
  split at h
  · cases h
    exact List.drop_suffix ..
  · cases h

theorem suffix_takeWhile (p : Char → Bool) : Suffix (takeWhile p) := by
  intro l a r h
  cases h
  exact List.dropWhile_suffix _

theorem eats_takeWhile1 (p : Char → Bool) : Eats (takeWhile1 p) := by
  intro l a r h
  obtain ⟨rfl, hne, -⟩ := takeWhile1_eq_ok h
  have hpos := List.length_pos_of_ne_nil hne
  refine ⟨List.suffix_append .., ?_⟩
  rw [List.length_append]
  omega

theorem suffix_takeUntil (c : Char) : Suffix (takeUntil c) := by
  intro l a r h
  unfold takeUntil at h
  split at h
  · cases h
    exact List.dropWhile_suffix _
  · cases h

theorem suffix_multispace0 : Suffix multispace0 := suffix_takeWhile _

theorem Suffix.opt {p : Parser α} (h : Suffix p) : Suffix (opt p) := by
  intro l o r ho
  rcases opt_eq_ok ho with ⟨a, -, hp⟩ | ⟨-, rfl, -⟩
  · exact h l a r hp
  · exact List.suffix_rfl

theorem Suffix.alt {p q : Parser α} (hp : Suffix p) (hq : Suffix q) : Suffix (alt p q) := by
  intro l a r h
  rcases alt_eq_ok h with h | ⟨-, h⟩
  · exact hp l a r h
  · exact hq l a r h

theorem Eats.alt {p q : Parser α} (hp : Eats p) (hq : Eats q) : Eats (alt p q) := by
  intro l a r h
  rcases alt_eq_ok h with h | ⟨-, h⟩
  · exact hp l a r h
  · exact hq l a r h

theorem Suffix.delimited {o : Parser β} {p : Parser α} {c : Parser γ} (ho : Suffix o) (hp : Suffix p) (hc : Suffix c) :
    Suffix (delimited o p c) := ho.bind fun _ => hp.bind fun _ => hc.bind fun _ => suffix_pure _

theorem Eats.delimited {o : Parser β} {p : Parser α} {c : Parser γ} (ho : Eats o) (hp : Suffix p) (hc : Suffix c) :
    Eats (delimited o p c) := ho.bind fun _ => hp.bind fun _ => hc.bind fun _ => suffix_pure _

theorem Suffix.preceded {o : Parser β} {p : Parser α} (ho : Suffix o) (hp : Suffix p) : Suffix (preceded o p) :=
  ho.bind fun _ => hp

theorem Suffix.many0Loop {p : Parser α} (h : Suffix p) (n : Nat) : Suffix (many0Loop p n) := by
  induction n with
  | zero => exact nofun
  | succ n ih =>
    intro l as r hl
    unfold Nom.many0Loop at hl
    split at hl
    · cases hl
      exact List.suffix_rfl
    · cases hl
    · next a l' hp =>
      split at hl
      · cases hl
      · split at hl
        · next as' r' has =>
          cases hl
          exact (ih l' as' r has).trans (h l a l' hp)
        · cases hl

theorem Suffix.many0 {p : Parser α} (h : Suffix p) : Suffix (many0 p) := fun l => h.many0Loop (l.length + 1) l

theorem Suffix.separatedList1 {sep : Parser β} {p : Parser α} (hs : Suffix sep) (hp : Suffix p) : Suffix (separatedList1 sep p) :=
  hp.bind fun _ => (hs.preceded hp).many0.bind fun _ => suffix_pure _

theorem recognize_eq_ok {p : Parser α} (hp : Suffix p) {l t r : List Char} (h : recognize p l = .ok (t, r)) :
    l = t ++ r ∧ ∃ a, p l = .ok (a, r) := by
  unfold recognize at h
  split at h
  · next a l' ha =>
    cases h
    obtain ⟨s, rfl⟩ := hp l a r ha
    refine ⟨?_, a, ha⟩
    rw [List.length_append, Nat.add_sub_cancel, List.take_left]
  · cases h

theorem Eats.recognize {p : Parser α} (h : Eats p) : Eats (recognize p) := by
  intro l t r ht
  obtain ⟨-, a, ha⟩ := recognize_eq_ok h.suffix ht
  exact h l a r ha

/-! ## What is made -/

/-- Every result has a property. -/
def Yields (p : Parser α) (P : α → Prop) : Prop := ∀ l a r, p l = .ok (a, r) → P a

theorem Yields.bind {p : Parser α} {f : α → Parser β} {P : α → Prop} {Q : β → Prop} (hp : Yields p P)
    (hf : ∀ a, P a → Yields (f a) Q) : Yields (p >>= f) Q := by
  intro l b r h
  obtain ⟨a, l', ha, hb⟩ := bind_eq_ok h
  exact hf a (hp l a l' ha) l' b r hb

/-- A parser whose result is not asked about. -/
theorem yields_bind {p : Parser α} {f : α → Parser β} {Q : β → Prop} (hf : ∀ a, Yields (f a) Q) : Yields (p >>= f) Q := by
  intro l b r h
  obtain ⟨a, l', -, hb⟩ := bind_eq_ok h
  exact hf a l' b r hb

theorem yields_pure {P : α → Prop} {a : α} (h : P a) : Yields (pure a : Parser α) P := by
  rintro l _ _ ⟨⟩
  exact h

theorem Yields.alt {p q : Parser α} {P : α → Prop} (hp : Yields p P) (hq : Yields q P) : Yields (alt p q) P := by
  intro l a r h
  rcases alt_eq_ok h with h | ⟨-, h⟩
  · exact hp l a r h
  · exact hq l a r h

theorem Yields.opt {p : Parser α} {P : α → Prop} (hp : Yields p P) : Yields (opt p) fun o => ∀ a, o = some a → P a := by
  intro l o r h
  rcases opt_eq_ok h with ⟨a, rfl, ha⟩ | ⟨rfl, -, -⟩
  · rintro _ ⟨⟩
    exact hp l a r ha
  · nofun

theorem Yields.preceded {o : Parser β} {p : Parser α} {P : α → Prop} (hp : Yields p P) : Yields (preceded o p) P :=
  yields_bind fun _ => hp

theorem Yields.delimited {o : Parser β} {p : Parser α} {c : Parser γ} {P : α → Prop} (hp : Yields p P) :
    Yields (delimited o p c) P := yields_bind fun _ => hp.bind fun _ ha => yields_bind fun _ => yields_pure ha

theorem Yields.many0Loop {p : Parser α} {P : α → Prop} (hp : Yields p P) (n : Nat) :
    Yields (many0Loop p n) fun as => ∀ a ∈ as, P a := by
  induction n with
  | zero => exact nofun
  | succ n ih =>
    intro l as r hl
    unfold Nom.many0Loop at hl
    split at hl
    · cases hl
      simp
    · cases hl
    · next a l' ha =>
      split at hl
      · cases hl
      · split at hl
        · next as' r' has =>
          cases hl
          exact List.forall_mem_cons.mpr ⟨hp l a l' ha, ih l' as' r has⟩
        · cases hl

theorem Yields.many0 {p : Parser α} {P : α → Prop} (hp : Yields p P) : Yields (many0 p) fun as => ∀ a ∈ as, P a :=
  fun l => hp.many0Loop (l.length + 1) l

theorem Yields.separatedList1 {sep : Parser β} {p : Parser α} {P : α → Prop} (hp : Yields p P) :
    Yields (separatedList1 sep p) fun as => ∀ a ∈ as, P a :=
  hp.bind fun _ ha => hp.preceded.many0.bind fun _ has => yields_pure (List.forall_mem_cons.mpr ⟨ha, has⟩)

/-! ## Repetition -/

/-- The fuel of a repetition makes no difference when it exceeds the text. -/
theorem many0Loop_congr {p : Parser α} (h : Suffix p) {n m : Nat} {l : List Char} (hn : l.length < n) (hm : l.length < m) :
    many0Loop p n l = many0Loop p m l := by
  induction n generalizing m l with
  | zero => omega
  | succ n ih =>
    cases m with
    | zero => omega
    | succ m =>
      unfold many0Loop
      split
      · rfl
      · rfl
      · next a l' hp =>
        have hle := (h l a l' hp).length_le
        by_cases heq : l'.length = l.length
        · rw [if_pos heq, if_pos heq]
        · rw [if_neg heq, if_neg heq, ih (m := m) (by omega) (by omega)]

theorem many0_of_error {p : Parser α} {l : List Char} (h : p l = .error .error) : many0 p l = .ok ([], l) := by
  simp [many0, many0Loop, h]

theorem many0_of_failure {p : Parser α} {l : List Char} (h : p l = .error .failure) : many0 p l = .error .failure := by
  simp [many0, many0Loop, h]

/-- One turn of a repetition. -/
theorem many0_of_ok {p : Parser α} (hs : Suffix p) {l l' : List Char} {a : α} (h : p l = .ok (a, l')) (hlt : l'.length < l.length) :
    many0 p l = (do let as ← many0 p; pure (a :: as) : Parser (List α)) l' := by
  have hloop : many0Loop p l.length l' = many0 p l' := many0Loop_congr hs (by omega) (by omega)
  unfold many0
  rw [many0Loop, h]
  dsimp only
  rw [if_neg (by omega), hloop]
  cases hm : many0 p l' with
  | error e => rw [bind_of_error (p := fun l => many0Loop p (l.length + 1) l) hm]
  | ok x => rw [bind_of_ok (p := fun l => many0Loop p (l.length + 1) l) hm]; rfl

/-- A repetition of a parser that takes some text has no error. -/
theorem many0_of_eats {p : Parser α} (h : Eats p) (l : List Char) :
    many0 p l = .error .failure ∨ ∃ as r, many0 p l = .ok (as, r) ∧ (r = l ∨ ∃ l' a, p l' = .ok (a, r)) := by
  induction hn : l.length using Nat.strongRecOn generalizing l with
  | ind n ih =>
    cases hp : p l with
    | error e =>
      cases e with
      | error => exact Or.inr ⟨[], l, many0_of_error hp, Or.inl rfl⟩
      | failure => exact Or.inl (many0_of_failure hp)
    | ok x =>
      obtain ⟨a, l'⟩ := x
      have hlt := (h l a l' hp).2
      rw [many0_of_ok h.suffix hp hlt]
      rcases ih l'.length (by omega) l' rfl with hfail | ⟨as, r, hok, hr⟩
      · exact Or.inl (by rw [bind_of_error hfail])
      · refine Or.inr ⟨a :: as, r, by rw [bind_of_ok hok]; rfl, Or.inr ?_⟩
        rcases hr with rfl | hr
        · exact ⟨l, a, hp⟩
        · exact hr

/-! ## Failures -/

/-- A parser after which an alternative is always tried. -/
def Recovers (p : Parser α) : Prop := ∀ l, p l ≠ .error .failure

theorem Recovers.bind {p : Parser α} {f : α → Parser β} (hp : Recovers p) (hf : ∀ a, Recovers (f a)) : Recovers (p >>= f) := by
  intro l
  cases h : p l with
  | error e =>
    rw [bind_of_error h]
    exact fun he => hp l (h.trans (congrArg _ (Except.error.inj he)))
  | ok x =>
    rw [bind_of_ok h]
    exact hf x.1 x.2

theorem recovers_pure (a : α) : Recovers (pure a : Parser α) := nofun

theorem recovers_fail : Recovers (fail : Parser α) := nofun

theorem recovers_rest : Recovers rest := nofun

theorem recovers_takeWhile (p : Char → Bool) : Recovers (takeWhile p) := nofun

theorem recovers_char (c : Char) : Recovers (char c) := by
  intro l
  cases l with
  | nil => nofun
  | cons a l =>
    by_cases h : a = c
    · rw [h, char_self]
      nofun
    · rw [char_of_ne h]
      nofun

theorem recovers_tag (t : String) : Recovers (tag t) := by
  intro l
  unfold tag
  split <;> nofun

theorem recovers_take (n : Nat) : Recovers (take n) := by
  intro l
  unfold take
  split <;> nofun

theorem recovers_takeWhile1 (p : Char → Bool) : Recovers (takeWhile1 p) := by
  intro l
  unfold takeWhile1
  split <;> nofun

theorem recovers_takeUntil (c : Char) : Recovers (takeUntil c) := by
  intro l
  unfold takeUntil
  split <;> nofun

theorem Recovers.opt {p : Parser α} (h : Recovers p) (l : List Char) : ∃ o r, opt p l = .ok (o, r) := by
  cases hp : p l with
  | ok x => exact ⟨some x.1, x.2, opt_of_ok hp⟩
  | error e =>
    cases e with
    | error => exact ⟨none, l, opt_of_error hp⟩
    | failure => exact absurd hp (h l)

theorem Recovers.alt {p q : Parser α} (hp : Recovers p) (hq : Recovers q) : Recovers (alt p q) := by
  intro l
  cases h : p l with
  | ok x =>
    rw [alt_of_ok h]
    nofun
  | error e =>
    cases e with
    | error =>
      rw [alt_of_error h]
      exact hq l
    | failure => exact absurd h (hp l)

theorem Recovers.preceded {o : Parser β} {p : Parser α} (ho : Recovers o) (hp : Recovers p) : Recovers (preceded o p) :=
  ho.bind fun _ => hp

theorem Recovers.delimited {o : Parser β} {p : Parser α} {c : Parser γ} (ho : Recovers o) (hp : Recovers p) (hc : Recovers c) :
    Recovers (delimited o p c) := ho.bind fun _ => hp.bind fun _ => hc.bind fun _ => recovers_pure _

theorem Recovers.many0Loop {p : Parser α} (h : Recovers p) (n : Nat) : Recovers (many0Loop p n) := by
  induction n with
  | zero => nofun
  | succ n ih =>
    intro l
    unfold Nom.many0Loop
    split
    · nofun
    · next hp => exact absurd hp (h l)
    · next a l' _ =>
      split
      · nofun
      · split
        · nofun
        · next e he => exact fun hfail => ih l' (he.trans (congrArg _ (Except.error.inj hfail)))

theorem Recovers.many0 {p : Parser α} (h : Recovers p) : Recovers (many0 p) := fun l => h.many0Loop (l.length + 1) l

theorem Recovers.separatedList1 {sep : Parser β} {p : Parser α} (hs : Recovers sep) (hp : Recovers p) :
    Recovers (separatedList1 sep p) := hp.bind fun _ => (hs.preceded hp).many0.bind fun _ => recovers_pure _

theorem Recovers.recognize {p : Parser α} (h : Recovers p) : Recovers (recognize p) := by
  intro l
  unfold Nom.recognize
  split
  · nofun
  · next e he => exact fun hfail => h l (he.trans (congrArg _ (Except.error.inj hfail)))

end Left

end Nom
