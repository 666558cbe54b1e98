/-
Module: Nfs4Compound.Lib.Reader
Layer: Lib
Purpose: Programs that read a byte stream from the front and keep some other state beside it.  Two
  judgements about them: what a program makes of bytes it consumes exactly, and that a program which
  meets the end of the stream can only say so.  The second gives, for every reply that is understood,
  that each of its proper prefixes is refused.
Imports: Nfs4Compound.Lib.Xdr
Trusted boundary: none
Main exports: Cursor, Reader, Reads, Rejects, Streams, Streams.truncated, Built
-/
import Nfs4Compound.Lib.Xdr

namespace Nfs4Compound.Xdr

/-- The unread bytes, how many have been read, and the state beside the stream. -/
structure Cursor (ρ : Type) where
  stream : Bytes
  pos : Nat
  side : ρ

/-- A reader stops with an error or returns a value; the cursor is kept in both cases. -/
abbrev Reader (ε ρ α : Type) := EStateM ε (Cursor ρ) α

section Readers

variable {ε ρ α β : Type}

/-- The next `n` bytes, or the error `short` when the stream ends before. -/
def inline (short : ε) (n : Nat) : Reader ε ρ Bytes := fun s =>
  match inlineDecode n s.stream with
  | some (data, rest) => .ok data { s with stream := rest, pos := s.pos + 4 * quadlen n }
  | none => .error short s

/-- The number of bytes read so far. -/
def streamPos : Reader ε ρ Nat := fun s => .ok s.pos s

/-- The state beside the stream. -/
def getSide : Reader ε ρ ρ := fun s => .ok s.side s

/-- Update the state beside the stream. -/
def modifySide (f : ρ → ρ) : Reader ε ρ Unit := fun s => .ok () { s with side := f s.side }

theorem run_bind_ok {m : Reader ε ρ α} {k : α → Reader ε ρ β} {s s' : Cursor ρ} {value : α}
    (first : m.run s = .ok value s') : (m >>= k).run s = (k value).run s' := by
  rw [EStateM.run_bind, first]

theorem run_bind_error {m : Reader ε ρ α} {k : α → Reader ε ρ β} {s s' : Cursor ρ} {error : ε}
    (first : m.run s = .error error s') : (m >>= k).run s = .error error s' := by
  rw [EStateM.run_bind, first]

/-! ### Bytes consumed exactly -/

/-- From position `pos` and state `side` the program consumes exactly `data`, whatever follows. -/
def Reads (m : Reader ε ρ α) (data : Bytes) (pos : Nat) (side : ρ) (value : α) (side' : ρ) : Prop :=
  ∀ rest, m.run ⟨data ++ rest, pos, side⟩ = .ok value ⟨rest, pos + data.length, side'⟩

/-- From position `pos` and state `side` the program consumes exactly `data` and stops with `error`. -/
def Rejects (m : Reader ε ρ α) (data : Bytes) (pos : Nat) (side : ρ) (error : ε) (side' : ρ) : Prop :=
  ∀ rest, m.run ⟨data ++ rest, pos, side⟩ = .error error ⟨rest, pos + data.length, side'⟩

variable {m : Reader ε ρ α} {k : α → Reader ε ρ β} {data data' : Bytes} {pos : Nat}
  {side side' side'' : ρ} {value : α} {value' : β} {error : ε}

theorem Reads.pure (pos : Nat) (side : ρ) (value : α) :
    Reads (Pure.pure value : Reader ε ρ α) [] pos side value side := fun _ => rfl

theorem Reads.bind (first : Reads m data pos side value side')
    (second : Reads (k value) data' (pos + data.length) side' value' side'') :
    Reads (m >>= k) (data ++ data') pos side value' side'' := by
  intro rest
  rw [EStateM.run_bind, List.append_assoc, first]
  simp only []
  rw [second, List.length_append, Nat.add_assoc]

/-- A first program that consumes nothing. -/
theorem Reads.bind_nil (first : Reads m [] pos side value side')
    (second : Reads (k value) data pos side' value' side'') :
    Reads (m >>= k) data pos side value' side'' := first.bind second

/-- A second program that consumes nothing. -/
theorem Reads.bind_done (first : Reads m data pos side value side')
    (second : Reads (k value) [] (pos + data.length) side' value' side'') :
    Reads (m >>= k) data pos side value' side'' := by
  have both := first.bind second
  rw [List.append_nil] at both
  exact both

/-- A value computed from what was read. -/
theorem Reads.bind_pure (f : α → β) (first : Reads m data pos side value side') :
    Reads (m >>= fun value => Pure.pure (f value)) data pos side (f value) side' := by
  intro rest
  rw [EStateM.run_bind, first]
  rfl

theorem Rejects.bind (first : Rejects m data pos side error side') :
    Rejects (m >>= k) data pos side error side' := by
  intro rest
  rw [EStateM.run_bind, first]

theorem Reads.bind_rejects (first : Reads m data pos side value side')
    (second : Rejects (k value) data' (pos + data.length) side' error side'') :
    Rejects (m >>= k) (data ++ data') pos side error side'' := by
  intro rest
  rw [EStateM.run_bind, List.append_assoc, first]
  simp only []
  rw [second, List.length_append, Nat.add_assoc]

theorem Reads.bind_nil_rejects (first : Reads m [] pos side value side')
    (second : Rejects (k value) data pos side' error side'') :
    Rejects (m >>= k) data pos side error side'' := first.bind_rejects second

theorem modifySide_reads (f : ρ → ρ) (pos : Nat) (side : ρ) :
    Reads (modifySide f : Reader ε ρ Unit) [] pos side () (f side) := fun _ => rfl

theorem getSide_reads (pos : Nat) (side : ρ) :
    Reads (getSide : Reader ε ρ ρ) [] pos side side side := fun _ => rfl

theorem streamPos_reads (pos : Nat) (side : ρ) :
    Reads (streamPos : Reader ε ρ Nat) [] pos side pos side := fun _ => rfl

theorem throw_rejects (error : ε) (pos : Nat) (side : ρ) :
    Rejects (throw error : Reader ε ρ α) [] pos side error side := fun _ => rfl

/-- Asking for the length of an opaque gives its data and skips its padding. -/
theorem inline_reads (short : ε) (data : Bytes) (pos : Nat) (side : ρ) :
    Reads (inline short data.length) (opaqueFixed data) pos side data side := by
  intro rest
  show inline short data.length ⟨opaqueFixed data ++ rest, pos, side⟩ = _
  simp only [inline, inlineDecode_opaqueFixed, length_opaqueFixed]

/-- Whole words have no padding. -/
theorem inline_reads_words (short : ε) (words : Nat) (aligned : data.length = 4 * words) (pos : Nat)
    (side : ρ) : Reads (inline short (4 * words)) data pos side data side := by
  intro rest
  have filled : quadlen (4 * words) = words := by
    unfold quadlen
    omega
  show inline short (4 * words) ⟨data ++ rest, pos, side⟩ = _
  simp only [inline, inlineDecode_aligned aligned, filled, aligned]

/-! ### The end of the stream -/

/-- The same cursor with more bytes behind. -/
def Cursor.extend (s : Cursor ρ) (extra : Bytes) : Cursor ρ := { s with stream := s.stream ++ extra }

/-- Bytes behind the ones it reads do not change what the program does; where they would, the program
    met the end of the stream and stopped with `short`. -/
def Streams (short : ε) (m : Reader ε ρ α) : Prop :=
  ∀ s extra,
    match m.run s with
    | .ok value s' => m.run (s.extend extra) = .ok value (s'.extend extra)
    | .error e s' => e = short ∨ m.run (s.extend extra) = .error e (s'.extend extra)

variable {short : ε}

theorem inline_streams (n : Nat) : Streams short (inline short n : Reader ε ρ Bytes) := by
  intro s extra
  simp only [EStateM.run, inline, Cursor.extend]
  cases found : inlineDecode n s.stream with
  | some pair => simp only [inlineDecode_append extra found]
  | none => simp only [true_or]

theorem Streams.bind (first : Streams short m) (second : ∀ value, Streams short (k value)) :
    Streams short (m >>= k) := by
  intro s extra
  have one := first s extra
  rw [EStateM.run_bind, EStateM.run_bind]
  cases result : m.run s with
  | ok value s' =>
      rw [result] at one
      simp only [] at one ⊢
      rw [one]
      exact second value s' extra
  | error e s' =>
      rw [result] at one
      simp only [] at one ⊢
      rcases one with short | same
      · exact Or.inl short
      · exact Or.inr (by rw [same])

/-- A program that uses up all its bytes, on a proper prefix of them, stops with `short`. -/
theorem Streams.truncated (streams : Streams short m) {t : Nat} (cut : t < data.length)
    (whole : (∃ value s', m.run ⟨data, pos, side⟩ = .ok value s' ∧ s'.stream = []) ∨
      ∃ e s', m.run ⟨data, pos, side⟩ = .error e s' ∧ s'.stream = []) :
    ∃ s', m.run ⟨data.take t, pos, side⟩ = .error short s' := by
  have behind : (data.drop t) ≠ [] := by
    intro empty
    have length := congrArg List.length empty
    rw [List.length_drop, List.length_nil] at length
    omega
  have extended := streams ⟨data.take t, pos, side⟩ (data.drop t)
  have all : (Cursor.mk (data.take t) pos side).extend (data.drop t) = ⟨data, pos, side⟩ := by
    rw [Cursor.extend, List.take_append_drop]
  rw [all] at extended
  cases result : m.run ⟨data.take t, pos, side⟩ with
  | ok value s' =>
      rw [result] at extended
      simp only [] at extended
      rcases whole with ⟨_, _, run, used⟩ | ⟨_, _, run, -⟩
      · rw [extended] at run
        cases run
        exact absurd (List.append_eq_nil_iff.mp used).2 behind
      · rw [extended] at run
        cases run
  | error e s' =>
      rw [result] at extended
      simp only [] at extended
      rcases extended with rfl | run'
      · exact ⟨s', rfl⟩
      · rcases whole with ⟨_, _, run, -⟩ | ⟨_, _, run, used⟩
        · rw [run'] at run
          cases run
        · rw [run'] at run
          cases run
          exact absurd (List.append_eq_nil_iff.mp used).2 behind

/-! ### What the state beside the stream can become -/

/-- The state beside the stream where the program stopped. -/
def finalSide : EStateM.Result ε (Cursor ρ) α → ρ
  | .ok _ s => s.side
  | .error _ s => s.side

/-- Programs put together from the primitives, where every update of the state beside the stream is one
    of the `allowed` ones. -/
inductive Built (short : ε) (allowed : (ρ → ρ) → Prop) : {α : Type} → Reader ε ρ α → Prop where
  | pure {α : Type} (value : α) : Built short allowed (Pure.pure value)
  | throw {α : Type} (error : ε) : Built short allowed (throw error : Reader ε ρ α)
  | inline (n : Nat) : Built short allowed (inline short n)
  | getSide : Built short allowed getSide
  | streamPos : Built short allowed streamPos
  | modifySide {f : ρ → ρ} (update : allowed f) : Built short allowed (modifySide f)
  | bind {α β : Type} {m : Reader ε ρ α} {k : α → Reader ε ρ β} (first : Built short allowed m)
      (second : ∀ value, Built short allowed (k value)) : Built short allowed (m >>= k)

variable {allowed : (ρ → ρ) → Prop}

theorem Built.ite {c : Prop} [Decidable c] {m m' : Reader ε ρ α} (yes : Built short allowed m)
    (no : Built short allowed m') : Built short allowed (if c then m else m') := by
  split
  · exact yes
  · exact no

theorem Built.streams (built : Built short allowed m) : Streams short m := by
  induction built with
  | pure value => exact fun _ _ => rfl
  | throw error => exact fun _ _ => Or.inr rfl
  | inline n => exact inline_streams n
  | getSide => exact fun _ _ => rfl
  | streamPos => exact fun _ _ => rfl
  | modifySide update => exact fun _ _ => rfl
  | bind _ _ first second => exact first.bind second

/-- What every allowed update keeps, the program keeps. -/
theorem Built.keeps {R : ρ → ρ → Prop} (refl : ∀ side, R side side)
    (trans : ∀ {a b c}, R a b → R b c → R a c) (updates : ∀ f, allowed f → ∀ side, R side (f side))
    (built : Built short allowed m) (s : Cursor ρ) : R s.side (finalSide (m.run s)) := by
  induction built generalizing s with
  | pure value => exact refl s.side
  | throw error => exact refl s.side
  | inline n =>
      simp only [EStateM.run, Xdr.inline]
      split
      · exact refl s.side
      · exact refl s.side
  | getSide => exact refl s.side
  | streamPos => exact refl s.side
  | modifySide update => exact updates _ update s.side
  | @bind _ _ m k _ _ first second =>
      have one := first s
      rw [EStateM.run_bind]
      cases result : m.run s with
      | ok value s' =>
          rw [result] at one
          exact trans one (second value s')
      | error e s' =>
          rw [result] at one
          exact one

end Readers

end Nfs4Compound.Xdr
