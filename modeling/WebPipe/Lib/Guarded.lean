import WebPipe.Lib.Nom

/-!
# Recursive parsers

A grammar whose rules call each other is a function from parsers to parsers. It is guarded when it reads some text before it calls its
argument; then it has one fixed point, which one unit of fuel for each character computes.
-/

namespace Nom

variable {α β γ δ : Type}

/-- Two parsers agree on the texts shorter than a number. -/
def Agree (n : Nat) (p q : Parser α) : Prop := ∀ l, l.length < n → p l = q l

/-- A construction that looks at its argument on no longer texts than it is given. -/
structure Local (F : Parser α → Parser β) : Prop where
  suffix : ∀ p, Suffix p → Suffix (F p)
  congr : ∀ n p q, Suffix p → Suffix q → Agree n p q → Agree n (F p) (F q)

/-- A construction that looks at its argument on shorter texts than it is given. -/
structure Guarded (F : Parser α → Parser β) : Prop where
  suffix : ∀ p, Suffix p → Suffix (F p)
  congr : ∀ n p q, Suffix p → Suffix q → Agree n p q → Agree (n + 1) (F p) (F q)

theorem local_id : Local (fun p : Parser α => p) := ⟨fun _ h => h, fun _ _ _ _ _ h => h⟩

theorem local_const {p : Parser β} (h : Suffix p) : Local (fun _ : Parser α => p) := ⟨fun _ _ => h, fun _ _ _ _ _ _ _ _ => rfl⟩

theorem guarded_const {p : Parser β} (h : Suffix p) : Guarded (fun _ : Parser α => p) := ⟨fun _ _ => h, fun _ _ _ _ _ _ _ _ => rfl⟩

/-- Two sequences agree when their parts do, the second on what the first leaves. -/
theorem bind_congr_of {p p' : Parser α} {f f' : α → Parser β} {l : List Char} (h : p l = p' l)
    (hf : ∀ a r, p l = .ok (a, r) → f a r = f' a r) : (p >>= f) l = (p' >>= f') l := by
  cases hp : p l with
  | error e => rw [bind_of_error hp, bind_of_error (h ▸ hp)]
  | ok x =>
    obtain ⟨a, r⟩ := x
    rw [bind_of_ok hp, bind_of_ok (h ▸ hp), hf a r hp]

/-- A sequence of local constructions is local. -/
theorem Local.bind {F : Parser α → Parser β} {G : β → Parser α → Parser γ} (hF : Local F) (hG : ∀ b, Local (G b)) :
    Local (fun p => F p >>= fun b => G b p) := by
  refine ⟨fun p hp => (hF.suffix p hp).bind fun b => (hG b).suffix p hp, fun n p q hp hq hpq l hl => ?_⟩
  refine bind_congr_of (hF.congr n p q hp hq hpq l hl) fun b r hr => (hG b).congr n p q hp hq hpq r ?_
  exact Nat.lt_of_le_of_lt (hF.suffix p hp l b r hr).length_le hl

/-- A sequence of guarded constructions is guarded. -/
theorem Guarded.bind {F : Parser α → Parser β} {G : β → Parser α → Parser γ} (hF : Guarded F) (hG : ∀ b, Guarded (G b)) :
    Guarded (fun p => F p >>= fun b => G b p) := by
  refine ⟨fun p hp => (hF.suffix p hp).bind fun b => (hG b).suffix p hp, fun n p q hp hq hpq l hl => ?_⟩
  refine bind_congr_of (hF.congr n p q hp hq hpq l hl) fun b r hr => (hG b).congr n p q hp hq hpq r ?_
  exact Nat.lt_of_le_of_lt (hF.suffix p hp l b r hr).length_le hl

/-- What follows a parser that takes some text may call the argument at once. -/
theorem Eats.guarded {p : Parser β} {G : β → Parser α → Parser γ} (hp : Eats p) (hG : ∀ b, Local (G b)) :
    Guarded (fun q => p >>= fun b => G b q) := by
  refine ⟨fun q hq => hp.suffix.bind fun b => (hG b).suffix q hq, fun n q q' hq hq' hqq' l hl => ?_⟩
  refine bind_congr_of rfl fun b r hr => (hG b).congr n q q' hq hq' hqq' r ?_
  have := (hp l b r hr).2
  omega

theorem Local.opt {F : Parser α → Parser β} (h : Local F) : Local (fun p => opt (F p)) := by
  refine ⟨fun p hp => (h.suffix p hp).opt, fun n p q hp hq hpq l hl => ?_⟩
  rw [Nom.opt, Nom.opt, h.congr n p q hp hq hpq l hl]

theorem Guarded.alt {F G : Parser α → Parser β} (hF : Guarded F) (hG : Guarded G) : Guarded (fun p => alt (F p) (G p)) := by
  refine ⟨fun p hp => (hF.suffix p hp).alt (hG.suffix p hp), fun n p q hp hq hpq l hl => ?_⟩
  rw [Nom.alt, Nom.alt, hF.congr n p q hp hq hpq l hl, hG.congr n p q hp hq hpq l hl]

/-- Parsers that agree on short texts repeat alike on them. -/
theorem many0Loop_agree {n : Nat} {p q : Parser α} (hp : Suffix p) (h : Agree n p q) (k : Nat) {l : List Char} (hl : l.length < n) :
    many0Loop p k l = many0Loop q k l := by
  induction k generalizing l with
  | zero => rfl
  | succ k ih =>
    unfold many0Loop
    rw [← h l hl]
    split
    · rfl
    · rfl
    · next a r hr => rw [ih (Nat.lt_of_le_of_lt (hp l a r hr).length_le hl)]

theorem Local.many0 {F : Parser α → Parser β} (h : Local F) : Local (fun p => many0 (F p)) :=
  ⟨fun p hp => (h.suffix p hp).many0, fun n p q hp hq hpq l hl =>
    many0Loop_agree (h.suffix p hp) (h.congr n p q hp hq hpq) (l.length + 1) hl⟩

/-! ## The fixed point -/

/-- The recursion to a depth. -/
def fixLoop (F : Parser α → Parser α) : Nat → Parser α
  | 0 => fail
  | n + 1 => F (fixLoop F n)

/-- The recursion, with one unit of fuel for each character and one more. -/
def fix (F : Parser α → Parser α) : Parser α := fun l => fixLoop F (l.length + 1) l

section Fix

variable {F : Parser α → Parser α} (h : Guarded F)

include h

theorem Guarded.suffix_fixLoop (n : Nat) : Suffix (fixLoop F n) := by
  induction n with
  | zero => exact suffix_fail
  | succ n ih => exact h.suffix _ ih

/-- The fixed point of a guarded construction leaves an end of the text. -/
theorem Guarded.suffix_fix : Suffix (fix F) := fun l => h.suffix_fixLoop (l.length + 1) l

/-- Fuel beyond the length of the text makes no difference. -/
theorem Guarded.fixLoop_agree {n m : Nat} (hnm : n ≤ m) : Agree n (fixLoop F n) (fixLoop F m) := by
  induction n generalizing m with
  | zero => nofun
  | succ n ih =>
    cases m with
    | zero => omega
    | succ m => exact h.congr n _ _ (h.suffix_fixLoop n) (h.suffix_fixLoop m) (ih (Nat.le_of_succ_le_succ hnm))

/-- With fuel for the text the loop is the fixed point. -/
theorem Guarded.fixLoop_eq {n : Nat} {l : List Char} (hl : l.length < n) : fixLoop F n l = fix F l :=
  (h.fixLoop_agree hl l (Nat.lt_succ_self _)).symm

/-- The recursion is a fixed point. -/
theorem Guarded.fix_eq (l : List Char) : fix F l = F (fix F) l := by
  refine h.congr l.length _ _ (h.suffix_fixLoop _) h.suffix_fix (fun l' hl' => ?_) l (Nat.lt_succ_self _)
  exact h.fixLoop_eq hl'

end Fix

end Nom
