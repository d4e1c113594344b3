import Mathlib.Data.List.Basic

/-!
# Texts in a row

A text is written as its UTF-8 bytes and a byte that no text has. Such frames can be told apart in a row: the bytes determine the texts.
-/

namespace Framing

variable {α : Type*}

/-- Parts in a row, each followed by a delimiter. -/
def frames (d : α) (parts : List (List α)) : List α := parts.flatMap fun p => p ++ [d]

@[simp] theorem frames_nil (d : α) : frames d [] = [] := rfl

@[simp] theorem frames_cons (d : α) (p : List α) (ps : List (List α)) : frames d (p :: ps) = p ++ d :: frames d ps := by
  simp [frames]

/-- Up to a first delimiter there is one way to read. -/
theorem append_cons_inj {d : α} {p q s t : List α} (hp : d ∉ p) (hq : d ∉ q) (h : p ++ d :: s = q ++ d :: t) : p = q ∧ s = t := by
  induction p generalizing q with
  | nil =>
    cases q with
    | nil => exact ⟨rfl, (List.cons.inj h).2⟩
    | cons b q => exact absurd (List.cons.inj h).1 fun e => hq (e ▸ List.mem_cons_self)
  | cons a p ih =>
    cases q with
    | nil => exact absurd (List.cons.inj h).1 fun e => hp (e ▸ List.mem_cons_self)
    | cons b q =>
      obtain ⟨rfl, hrest⟩ := List.cons.inj h
      obtain ⟨rfl, ht⟩ := ih (fun m => hp (List.mem_cons_of_mem _ m)) (fun m => hq (List.mem_cons_of_mem _ m)) hrest
      exact ⟨rfl, ht⟩

/-- Parts without the delimiter are determined by their frames. -/
theorem frames_inj {d : α} {ps qs : List (List α)} (hps : ∀ p ∈ ps, d ∉ p) (hqs : ∀ q ∈ qs, d ∉ q)
    (h : frames d ps = frames d qs) : ps = qs := by
  induction ps generalizing qs with
  | nil =>
    cases qs with
    | nil => rfl
    | cons q qs => simp at h
  | cons p ps ih =>
    cases qs with
    | nil => simp at h
    | cons q qs =>
      rw [frames_cons, frames_cons] at h
      obtain ⟨rfl, hrest⟩ := append_cons_inj (hps p List.mem_cons_self) (hqs q List.mem_cons_self) h
      rw [ih (fun p hp => hps p (List.mem_cons_of_mem _ hp)) (fun q hq => hqs q (List.mem_cons_of_mem _ hq)) hrest]

/-! ## UTF-8 -/

/-- The bytes of a text. -/
def utf8Bytes (s : String) : List UInt8 := s.toList.flatMap String.utf8EncodeChar

theorem utf8Bytes_inj {s t : String} (h : utf8Bytes s = utf8Bytes t) : s = t := by
  have hbytes : s.toList.utf8Encode = t.toList.utf8Encode := congrArg List.toByteArray h
  rw [String.utf8Encode_toList, String.utf8Encode_toList] at hbytes
  exact String.toByteArray_inj.mp hbytes

/-- A byte below 255. -/
theorem ofNat_ne_255 {n : Nat} (h : n < 255) : (255 : UInt8) ≠ UInt8.ofNat n := by
  intro he
  have hn := congrArg UInt8.toNat he
  rw [UInt8.toNat_ofNat'] at hn
  simp at hn
  omega

/-- The byte 255 occurs in no text. -/
theorem not_mem_utf8Bytes (s : String) : (255 : UInt8) ∉ utf8Bytes s := by
  intro h
  obtain ⟨c, -, hc⟩ := List.mem_flatMap.mp h
  unfold String.utf8EncodeChar at hc
  dsimp only at hc
  split_ifs at hc <;> simp only [List.mem_cons, List.not_mem_nil, or_false] at hc
  · exact ofNat_ne_255 (by omega) hc
  · rcases hc with hc | hc
    · exact ofNat_ne_255 (by omega) hc
    · exact ofNat_ne_255 (by omega) hc
  · rcases hc with hc | hc | hc
    · exact ofNat_ne_255 (by omega) hc
    · exact ofNat_ne_255 (by omega) hc
    · exact ofNat_ne_255 (by omega) hc
  · rcases hc with hc | hc | hc | hc
    · exact ofNat_ne_255 (by omega) hc
    · exact ofNat_ne_255 (by omega) hc
    · exact ofNat_ne_255 (by omega) hc
    · exact ofNat_ne_255 (by omega) hc

/-- What hashing texts one after another feeds to a hasher: the bytes of each, and the byte 255 after it. -/
def hashStream (parts : List String) : List UInt8 := frames 255 (parts.map utf8Bytes)

/-- The bytes fed to a hasher determine the texts. -/
theorem hashStream_inj {ps qs : List String} : hashStream ps = hashStream qs ↔ ps = qs := by
  constructor
  · intro h
    have hno : ∀ parts : List String, ∀ p ∈ parts.map utf8Bytes, (255 : UInt8) ∉ p := by
      intro parts p hp
      obtain ⟨s, -, rfl⟩ := List.mem_map.mp hp
      exact not_mem_utf8Bytes s
    exact List.map_injective_iff.mpr (fun _ _ => utf8Bytes_inj) (frames_inj (hno ps) (hno qs) h)
  · intro h
    rw [h]

end Framing
