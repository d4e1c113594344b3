import Mathlib.Data.List.Nodup
import WebPipe.Debugger.Sends
import WebPipe.Lib.Runs
import WebPipe.Theorems.MessageFraming

namespace WebPipe
namespace Wire

/-! ## Concurrent messages do not mix -/

/-- The number of a message that has one. -/
def SendPhase.number : SendPhase → Option Nat
  | .ready => none
  | .numbered n => some n
  | .headed n => some n
  | .bodied n => some n
  | .sent n => some n

/-- The number of a message that is written to its end. -/
def SendPhase.complete : SendPhase → Option Nat
  | .bodied n => some n
  | .sent n => some n
  | _ => none

/-- A message writes. -/
def SendPhase.Writing (p : SendPhase) : Prop := ∃ n, p = .headed n ∨ p = .bodied n

/-- A complete message has its number. -/
theorem SendPhase.number_of_complete {p : SendPhase} {n : Nat} (h : p.complete = some n) : p.number = some n := by
  cases p <;> simp_all [SendPhase.complete, SendPhase.number]

/-- One more message on the stream. -/
theorem stream_snoc (msgs : List String) (msg : String) : stream (msgs ++ [msg]) = stream msgs ++ frame msg := by
  simp [stream]

/-- What is sent for messages in a row is read as these messages. -/
theorem readMessages_stream (msgs : List Message) {reader : List (List UInt8)}
    (hreader : reader.flatten = stream (msgs.map Message.text)) :
    ∃ rest, readMessages msgs.length reader = .ok (msgs.map Message.text, rest) ∧ rest.flatten = [] := by
  induction msgs generalizing reader with
  | nil => exact ⟨reader, rfl, hreader⟩
  | cons m msgs ih =>
    rw [List.map_cons, stream, List.flatMap_cons] at hreader
    obtain ⟨reader', hread, hreader'⟩ := readMessage_frame m hreader
    obtain ⟨rest, hreads, hrest⟩ := ih hreader'
    refine ⟨rest, ?_, hrest⟩
    rw [List.length_cons, readMessages, hread]
    simp only [bind, Except.bind, hreads, List.map_cons]
    rfl

namespace Sends

variable {text : Nat → Nat → String} {s₀ s : Sends} {order : List (Nat × Nat)}

/-- A sender that goes on is in its new phase. -/
@[simp] theorem setPhase_self (s : Sends) (i : Nat) (p : SendPhase) : (s.setPhase i p).phase i = p := if_pos rfl

/-- The others stay where they are. -/
theorem setPhase_other (s : Sends) {i j : Nat} (p : SendPhase) (h : j ≠ i) : (s.setPhase i p).phase j = s.phase j := if_neg h

@[simp] theorem setPhase_seq (s : Sends) (i : Nat) (p : SendPhase) : (s.setPhase i p).seq = s.seq := rfl

@[simp] theorem setPhase_lock (s : Sends) (i : Nat) (p : SendPhase) : (s.setPhase i p).lock = s.lock := rfl

@[simp] theorem setPhase_written (s : Sends) (i : Nat) (p : SendPhase) : (s.setPhase i p).written = s.written := rfl

/-- What was written of the messages in an order. -/
def texts (text : Nat → Nat → String) (order : List (Nat × Nat)) : List String := order.map fun m => text m.1 m.2

/-- What holds in every state of a run, for the order in which the messages were written to their end. -/
structure Invariant (text : Nat → Nat → String) (s₀ s : Sends) (order : List (Nat × Nat)) : Prop where
  complete : ∀ i n, (i, n) ∈ order ↔ (s.phase i).complete = some n
  once : (order.map Prod.fst).Nodup
  bounds : ∀ i n, (s.phase i).number = some n → s₀.seq ≤ n ∧ n < s.seq
  start : s₀.seq ≤ s.seq
  distinct : ∀ i j n, (s.phase i).number = some n → (s.phase j).number = some n → i = j
  holds : ∀ i, (s.phase i).Writing → s.lock = some i
  headed : ∀ i n, s.phase i = .headed n → s.written = s₀.written ++ stream (texts text order) ++
    Framing.utf8Bytes (header (text i n).utf8ByteSize)
  whole : (∀ i n, s.phase i ≠ .headed n) → s.written = s₀.written ++ stream (texts text order)

/-- A message that changes its phase, but neither its number nor whether it is complete. -/
theorem Invariant.numbersKept (h : Invariant text s₀ s order) {i : Nat} {p : SendPhase} (hnumber : p.number = (s.phase i).number)
    {s' : Sends} (hphase : s'.phase = (s.setPhase i p).phase) (hseq : s'.seq = s.seq) :
    (∀ j n, (s'.phase j).number = some n → s₀.seq ≤ n ∧ n < s'.seq) ∧
      ∀ j k n, (s'.phase j).number = some n → (s'.phase k).number = some n → j = k := by
  have hsame : ∀ j, (s'.phase j).number = (s.phase j).number := by
    intro j
    rw [hphase]
    by_cases hj : j = i
    · rw [hj, setPhase_self, hnumber]
    · rw [setPhase_other s p hj]
  constructor
  · intro j n hn
    rw [hsame] at hn
    rw [hseq]
    exact h.bounds j n hn
  · intro j k n hj hk
    rw [hsame] at hj hk
    exact h.distinct j k n hj hk

/-- Taking a number. -/
theorem Invariant.takeNumber (h : Invariant text s₀ s order) {i : Nat} (hi : s.phase i = .ready) :
    Invariant text s₀ ({ s with seq := s.seq + 1 }.setPhase i (.numbered s.seq)) order where
  complete j n := by
    rw [h.complete]
    by_cases hj : j = i
    · subst hj
      simp [hi, SendPhase.complete]
    · rw [setPhase_other _ _ hj]
  once := h.once
  bounds j n hn := by
    have hstart := h.start
    by_cases hj : j = i
    · subst hj
      rw [setPhase_self, SendPhase.number, Option.some.injEq] at hn
      simp only [setPhase_seq]
      omega
    · rw [setPhase_other _ _ hj] at hn
      have := h.bounds j n hn
      simp only [setPhase_seq]
      omega
  start := Nat.le_succ_of_le h.start
  distinct j k n hj hk := by
    -- the new number is above all that were taken
    by_cases hji : j = i
    · by_cases hki : k = i
      · rw [hji, hki]
      · subst hji
        rw [setPhase_self, SendPhase.number, Option.some.injEq] at hj
        rw [setPhase_other _ _ hki] at hk
        exact absurd (h.bounds k n hk).2 (by omega)
    · rw [setPhase_other _ _ hji] at hj
      by_cases hki : k = i
      · subst hki
        rw [setPhase_self, SendPhase.number, Option.some.injEq] at hk
        exact absurd (h.bounds j n hj).2 (by omega)
      · rw [setPhase_other _ _ hki] at hk
        exact h.distinct j k n hj hk
  holds j hj := by
    by_cases hji : j = i
    · subst hji
      simp [SendPhase.Writing] at hj
    · rw [setPhase_other _ _ hji] at hj
      exact h.holds j hj
  headed j n hj := by
    by_cases hji : j = i
    · subst hji
      simp at hj
    · rw [setPhase_other _ _ hji] at hj
      exact h.headed j n hj
  whole hnone := by
    refine h.whole fun j n hj => ?_
    by_cases hji : j = i
    · rw [hji, hi] at hj
      cases hj
    · exact hnone j n (by rw [setPhase_other _ _ hji, hj])

/-- Taking the free lock and writing the header. -/
theorem Invariant.writeHeader (h : Invariant text s₀ s order) {i n : Nat} (hi : s.phase i = .numbered n) (hfree : s.lock = none) :
    Invariant text s₀ ({ s with
      lock := some i
      written := s.written ++ Framing.utf8Bytes s!"Content-Length: {(text i n).utf8ByteSize}\r\n\r\n" }.setPhase i (.headed n))
      order := by
  have hidle : ∀ j, ¬(s.phase j).Writing := by
    intro j hj
    rw [h.holds j hj] at hfree
    cases hfree
  have hwhole := h.whole fun j m hj => hidle j ⟨m, Or.inl hj⟩
  obtain ⟨hbounds, hdistinct⟩ := h.numbersKept (i := i) (p := .headed n) (by rw [hi]; rfl) rfl rfl
  refine ⟨?_, h.once, hbounds, h.start, hdistinct, ?_, ?_, ?_⟩
  · intro j m
    rw [h.complete]
    by_cases hj : j = i
    · subst hj
      simp [hi, SendPhase.complete]
    · rw [setPhase_other _ _ hj]
  · intro j hj
    by_cases hji : j = i
    · rw [hji]
      rfl
    · rw [setPhase_other _ _ hji] at hj
      exact absurd hj (hidle j)
  · intro j m hj
    by_cases hji : j = i
    · subst hji
      rw [setPhase_self, SendPhase.headed.injEq] at hj
      subst hj
      exact congrArg (· ++ Framing.utf8Bytes (header (text j n).utf8ByteSize)) hwhole
    · rw [setPhase_other _ _ hji] at hj
      exact absurd ⟨m, Or.inl hj⟩ (hidle j)
  · intro hnone
    exact absurd (setPhase_self _ _ _) (hnone i n)

/-- Writing the body ends the message. -/
theorem Invariant.writeBody (h : Invariant text s₀ s order) {i n : Nat} (hi : s.phase i = .headed n) :
    Invariant text s₀ ({ s with written := s.written ++ Framing.utf8Bytes (text i n) }.setPhase i (.bodied n))
      (order ++ [(i, n)]) := by
  have hlock := h.holds i ⟨n, Or.inl hi⟩
  obtain ⟨hbounds, hdistinct⟩ := h.numbersKept (i := i) (p := .bodied n) (by rw [hi]; rfl) rfl rfl
  have hwritten : s.written ++ Framing.utf8Bytes (text i n) = s₀.written ++ stream (texts text (order ++ [(i, n)])) := by
    rw [h.headed i n hi]
    simp [texts, stream_snoc, frame]
  have hother : ∀ j m, j ≠ i → s.phase j ≠ .headed m := by
    intro j m hne hj
    rw [h.holds j ⟨m, Or.inl hj⟩, Option.some.injEq] at hlock
    exact hne hlock
  have hfresh : i ∉ order.map Prod.fst := by
    intro hin
    obtain ⟨⟨i', m⟩, hm, rfl⟩ := List.mem_map.mp hin
    have := (h.complete _ _).mp hm
    rw [hi] at this
    cases this
  refine ⟨?_, ?_, hbounds, h.start, hdistinct, ?_, ?_, fun _ => hwritten⟩
  · intro j m
    rw [List.mem_append, List.mem_singleton, h.complete, Prod.mk.injEq]
    by_cases hj : j = i
    · subst hj
      simp [hi, SendPhase.complete, eq_comm]
    · simp [setPhase_other _ _ hj, hj]
  · rw [List.map_append, List.map_singleton]
    refine List.nodup_append.mpr ⟨h.once, by simp, ?_⟩
    rintro a ha b hb rfl
    have hai : a = i := List.mem_singleton.mp hb
    exact hfresh (hai ▸ ha)
  · intro j hj
    by_cases hji : j = i
    · rw [hji]
      exact hlock
    · rw [setPhase_other _ _ hji] at hj
      exact h.holds j hj
  · intro j m hj
    by_cases hji : j = i
    · subst hji
      simp at hj
    · rw [setPhase_other _ _ hji] at hj
      exact absurd hj (hother j m hji)

/-- Releasing the lock. -/
theorem Invariant.release (h : Invariant text s₀ s order) {i n : Nat} (hi : s.phase i = .bodied n) :
    Invariant text s₀ ({ s with lock := none }.setPhase i (.sent n)) order := by
  have hlock := h.holds i ⟨n, Or.inr hi⟩
  have hidle : ∀ j, j ≠ i → ¬(s.phase j).Writing := by
    intro j hne hj
    rw [h.holds j hj, Option.some.injEq] at hlock
    exact hne hlock
  obtain ⟨hbounds, hdistinct⟩ := h.numbersKept (i := i) (p := .sent n) (by rw [hi]; rfl) rfl rfl
  refine ⟨?_, h.once, hbounds, h.start, hdistinct, ?_, ?_, ?_⟩
  · intro j m
    rw [h.complete]
    by_cases hj : j = i
    · subst hj
      simp [hi, SendPhase.complete]
    · rw [setPhase_other _ _ hj]
  · intro j hj
    by_cases hji : j = i
    · subst hji
      simp [SendPhase.Writing] at hj
    · rw [setPhase_other _ _ hji] at hj
      exact absurd hj (hidle j hji)
  · intro j m hj
    by_cases hji : j = i
    · subst hji
      simp at hj
    · rw [setPhase_other _ _ hji] at hj
      exact absurd ⟨m, Or.inl hj⟩ (hidle j hji)
  · intro _
    refine h.whole fun j m hj => ?_
    by_cases hji : j = i
    · rw [hji, hi] at hj
      cases hj
    · exact hidle j hji ⟨m, Or.inl hj⟩

/-- Every step of a message keeps the invariant, for an order that it may lengthen. -/
theorem Invariant.step (h : ∃ order, Invariant text s₀ s order) (i : Nat) :
    ∃ order, Invariant text s₀ (sendStep text s i) order := by
  obtain ⟨order, h⟩ := h
  unfold sendStep
  cases hi : s.phase i with
  | ready => exact ⟨order, h.takeNumber hi⟩
  | numbered n =>
    cases hlock : s.lock with
    | none => exact ⟨order, h.writeHeader hi hlock⟩
    | some j => exact ⟨order, h⟩
  | headed n => exact ⟨order ++ [(i, n)], h.writeBody hi⟩
  | bodied n => exact ⟨order, h.release hi⟩
  | sent n => exact ⟨order, h⟩

end Sends

/-- In whatever order concurrent messages take their steps, whenever the writer's lock is free the client reads exactly the
messages that were sent, each one once and under a number of its own. -/
theorem sends_do_not_mix (text : Nat → Nat → Message) (seq : Nat) (schedule : List Nat) {s : Sends}
    (hs : s = Runs.after (sendStep fun i n => (text i n).text)
      { seq := seq, lock := none, written := [], phase := fun _ => .ready } schedule)
    (hfree : s.lock = none) :
    ∃ order : List (Nat × Nat), (∀ i n, (i, n) ∈ order ↔ s.phase i = .sent n) ∧ (order.map Prod.fst).Nodup ∧
      (order.map Prod.snd).Nodup ∧
      ∀ reader : List (List UInt8), reader.flatten = s.written →
        ∃ rest, readMessages order.length reader = .ok (order.map fun m => (text m.1 m.2).text, rest) ∧ rest.flatten = [] := by
  have hinit : Sends.Invariant (fun i n => (text i n).text) { seq := seq, lock := none, written := [], phase := fun _ => .ready }
      { seq := seq, lock := none, written := [], phase := fun _ => .ready } [] :=
    { complete := fun i n => by simp [SendPhase.complete]
      once := List.nodup_nil
      bounds := fun i n hn => by simp [SendPhase.number] at hn
      start := Nat.le_refl _
      distinct := fun i j n hn => by simp [SendPhase.number] at hn
      holds := fun i hi => by simp [SendPhase.Writing] at hi
      headed := fun i n hi => by simp at hi
      whole := fun _ => rfl }
  obtain ⟨order, h⟩ := Runs.after_of_step (P := fun s => ∃ order, Sends.Invariant (fun i n => (text i n).text) _ s order)
    (fun s i h => Sends.Invariant.step h i) ⟨[], hinit⟩ schedule
  rw [← hs] at h
  have hidle : ∀ i, ¬(s.phase i).Writing := by
    intro i hi
    rw [h.holds i hi] at hfree
    cases hfree
  have hsent : ∀ i n, (i, n) ∈ order ↔ s.phase i = .sent n := by
    intro i n
    rw [h.complete]
    cases hi : s.phase i with
    | bodied m => exact absurd ⟨m, Or.inr hi⟩ (hidle i)
    | ready => simp [SendPhase.complete]
    | numbered m => simp [SendPhase.complete]
    | headed m => simp [SendPhase.complete]
    | sent m => simp [SendPhase.complete]
  refine ⟨order, hsent, h.once, ?_, ?_⟩
  · refine (List.nodup_map_iff_inj_on (List.Nodup.of_map _ h.once)).mpr ?_
    rintro ⟨i, n⟩ hin ⟨j, m⟩ hjm hnm
    have hi := SendPhase.number_of_complete ((h.complete i n).mp hin)
    have hj := SendPhase.number_of_complete ((h.complete j m).mp hjm)
    have heq : n = m := hnm
    subst heq
    rw [h.distinct i j n hi hj]
  · intro reader hreader
    have hwritten := h.whole fun i n hi => hidle i ⟨n, Or.inl hi⟩
    rw [List.nil_append] at hwritten
    have htexts : Sends.texts (fun i n => (text i n).text) order = (order.map fun m => text m.1 m.2).map Message.text := by
      simp [Sends.texts]
    obtain ⟨rest, hread, hrest⟩ := readMessages_stream (order.map fun m => text m.1 m.2) (hreader.trans (hwritten.trans (by rw [htexts])))
    rw [List.length_map, List.map_map] at hread
    exact ⟨rest, hread, hrest⟩

/-- Two messages of one client: the second is written first, and waits for nobody. -/
theorem sends_do_not_mix_two : ∃ order : List (Nat × Nat), (order.map Prod.snd).Nodup ∧ (1, 2) ∈ order ∧ (0, 1) ∈ order := by
  obtain ⟨order, hsent, -, hnumbers, -⟩ := sends_do_not_mix (fun _ _ => ⟨"{}", by decide⟩) 1 [0, 1, 1, 0, 1, 1, 0, 0, 0] rfl rfl
  exact ⟨order, hnumbers, (hsent 1 2).mpr rfl, (hsent 0 1).mpr rfl⟩

end Wire
end WebPipe
