import WebPipe.Lib.Nom

/-!
# Parsers in control flow

Parsers whose results decide what is parsed next, as in `if let` and `loop` around calls of parsers: there every failure is one, also one
that an alternative would not recover from.
-/

namespace Nom

variable {α β : Type}

/-- What follows a parser where it succeeds, and another parser where it does not. -/
def ifOk (p : Parser α) (f : α → Parser β) (q : Parser β) : Parser β := fun l =>
  match p l with
  | .ok (a, l') => f a l'
  | .error _ => q l

/-- The first of two parsers that succeeds. -/
def orElse (p q : Parser α) : Parser α := ifOk p pure q

/-- A state, changed by a parser again and again as long as it succeeds, with one unit of fuel for each turn. A turn starts with a parser
whose text is given back when the turn is the last, and ends with another. -/
def loopOk (before : Parser Unit) (p : β → Parser β) (after : Parser Unit) : Nat → β → Parser β
  | 0, _ => fail
  | n + 1, b => fun l =>
    match before l with
    | .error e => .error e
    | .ok (_, start) =>
      match p b start with
      | .ok (b', l') => (do after; loopOk before p after n b' : Parser β) l'
      | .error _ => .ok (b, l)

/-- The loop with fuel for each character. -/
def whileOk (before : Parser Unit) (p : β → Parser β) (after : Parser Unit) (b : β) : Parser β := fun l =>
  loopOk before p after (l.length + 1) b l

/-! ## What is left -/

/-- There is a way on where the last of the parsers finds one. -/
theorem ifOk_ne_error {p : Parser α} {f : α → Parser β} {q : Parser β} {l : List Char} (hf : ∀ a r, f a r ≠ .error .error)
    (hq : q l ≠ .error .error) : ifOk p f q l ≠ .error .error := by
  unfold ifOk
  split
  · exact hf _ _
  · exact hq

theorem Suffix.ifOk {p : Parser α} {f : α → Parser β} {q : Parser β} (hp : Suffix p) (hf : ∀ a, Suffix (f a)) (hq : Suffix q) :
    Suffix (ifOk p f q) := by
  intro l b r h
  unfold Nom.ifOk at h
  split at h
  · next a l' ha => exact (hf a l' b r h).trans (hp l a l' ha)
  · exact hq l b r h

/-- Either way some text is taken. -/
theorem Eats.ifOk {p : Parser α} {f : α → Parser β} {q : Parser β} (hp : Eats p) (hf : ∀ a, Suffix (f a)) (hq : Eats q) :
    Eats (ifOk p f q) := by
  intro l b r h
  unfold Nom.ifOk at h
  split at h
  · next a l' ha =>
    obtain ⟨hsuffix, hlt⟩ := hp l a l' ha
    have hrest := hf a l' b r h
    exact ⟨hrest.trans hsuffix, Nat.lt_of_le_of_lt hrest.length_le hlt⟩
  · exact hq l b r h

/-- Whichever parser succeeds takes some text. -/
theorem Eats.orElse {p q : Parser α} (hp : Eats p) (hq : Eats q) : Eats (orElse p q) := hp.ifOk suffix_pure hq

section Loop

variable {before : Parser Unit} {p : β → Parser β} {after : Parser Unit}

theorem Suffix.loopOk (hbefore : Suffix before) (hp : ∀ b, Suffix (p b)) (hafter : Suffix after) (n : Nat) (b : β) :
    Suffix (loopOk before p after n b) := by
  induction n generalizing b with
  | zero => exact suffix_fail
  | succ n ih =>
    intro l b' r h
    unfold Nom.loopOk at h
    split at h
    · cases h
    · next start hstart =>
      split at h
      · next b₁ l' hturn =>
        have hrest : Suffix (do after; Nom.loopOk before p after n b₁ : Parser β) := hafter.bind fun _ => ih b₁
        exact (hrest _ _ _ h).trans ((hp b _ _ _ hturn).trans (hbefore _ _ _ hstart))
      · cases h
        exact List.suffix_rfl

/-- A loop leaves an end of the text. -/
theorem Suffix.whileOk (hbefore : Suffix before) (hp : ∀ b, Suffix (p b)) (hafter : Suffix after) (b : β) :
    Suffix (whileOk before p after b) := fun l => hbefore.loopOk hp hafter (l.length + 1) b l

/-- The fuel of a loop makes no difference when it exceeds the text: every turn but the last takes some. -/
theorem loopOk_congr (hbefore : Suffix before) (hp : ∀ b, Eats (p b)) (hafter : Suffix after) {n m : Nat} {b : β} {l : List Char}
    (hn : l.length < n) (hm : l.length < m) : loopOk before p after n b l = loopOk before p after m b l := by
  induction n generalizing m b l with
  | zero => omega
  | succ n ih =>
    obtain ⟨m, rfl⟩ : ∃ k, m = k + 1 := ⟨m - 1, by omega⟩
    unfold loopOk
    cases hstart : before l with
    | error e => rfl
    | ok x =>
      obtain ⟨_, start⟩ := x
      dsimp only
      cases hturn : p b start with
      | error e => rfl
      | ok y =>
        obtain ⟨b', l'⟩ := y
        have hle := (hbefore _ _ _ hstart).length_le
        have hlt := (hp b _ _ _ hturn).2
        dsimp only
        cases hend : after l' with
        | error e => rw [bind_of_error hend, bind_of_error hend]
        | ok z =>
          obtain ⟨_, l''⟩ := z
          have hle' := (hafter _ _ _ hend).length_le
          rw [bind_of_ok hend, bind_of_ok hend]
          exact ih (by omega) (by omega)

/-- With fuel for the text the loop does not depend on it. -/
theorem loopOk_eq (hbefore : Suffix before) (hp : ∀ b, Eats (p b)) (hafter : Suffix after) {n : Nat} {b : β} {l : List Char}
    (hn : l.length < n) : loopOk before p after n b l = whileOk before p after b l :=
  loopOk_congr hbefore hp hafter hn (Nat.lt_succ_self _)

end Loop

end Nom
