/-
Module: Nfs4Compound.Lib.Xdr
Layer: Lib
Purpose: The XDR wire form over byte lists: big-endian 32-bit and 64-bit words, opaque byte strings
  padded to four bytes, and a reader that consumes whole words.  Each reader undoes its writer in front
  of any rest of the stream.
Trusted boundary: none
Main exports: quadlen, wordBytes, hyperBytes, opaqueBytes, inlineDecode, readWord, hyperOf, readOpaque
-/
import Mathlib.Data.List.Basic
import Mathlib.Tactic.Ring

namespace Nfs4Compound.Xdr

/-- The words an opaque of `n` bytes fills. -/
def quadlen (n : Nat) : Nat := (n + 3) / 4

/-- Bytes on the wire. -/
abbrev Bytes := List UInt8

/-! ### Writing -/

/-- One big-endian word. -/
def wordBytes (w : UInt32) : Bytes :=
  [UInt8.ofNat (w.toNat / 2 ^ 24), UInt8.ofNat (w.toNat / 2 ^ 16), UInt8.ofNat (w.toNat / 2 ^ 8),
    UInt8.ofNat w.toNat]

/-- The high word of a 64-bit value. -/
def highWord (v : UInt64) : UInt32 := UInt32.ofNat (v.toNat / 2 ^ 32)

/-- The low word of a 64-bit value. -/
def lowWord (v : UInt64) : UInt32 := UInt32.ofNat v.toNat

/-- A 64-bit value, high word first. -/
def hyperBytes (v : UInt64) : Bytes := wordBytes (highWord v) ++ wordBytes (lowWord v)

/-- The zero bytes that fill the last word of an opaque. -/
def padding (n : Nat) : Bytes := List.replicate (4 * quadlen n - n) 0

/-- An opaque of known length: the data and its padding. -/
def opaqueFixed (data : Bytes) : Bytes := data ++ padding data.length

/-- A counted opaque: its length, the data, the padding. -/
def opaqueBytes (data : Bytes) : Bytes := wordBytes (UInt32.ofNat data.length) ++ opaqueFixed data

@[simp] theorem length_wordBytes (w : UInt32) : (wordBytes w).length = 4 := rfl

@[simp] theorem length_hyperBytes (v : UInt64) : (hyperBytes v).length = 8 := rfl

theorem le_quadlen (n : Nat) : n ≤ 4 * quadlen n := by
  unfold quadlen
  omega

@[simp] theorem length_opaqueFixed (data : Bytes) :
    (opaqueFixed data).length = 4 * quadlen data.length := by
  have room := le_quadlen data.length
  simp only [opaqueFixed, padding, List.length_append, List.length_replicate]
  omega

@[simp] theorem length_opaqueBytes (data : Bytes) :
    (opaqueBytes data).length = 4 + 4 * quadlen data.length := by
  simp [opaqueBytes]

/-! ### Reading -/

/-- The `n` bytes at the front of the stream, and the stream after the words they fill; `none` when
    the stream ends before. -/
def inlineDecode (n : Nat) (stream : Bytes) : Option (Bytes × Bytes) :=
  if 4 * quadlen n ≤ stream.length then some (stream.take n, stream.drop (4 * quadlen n)) else none

/-- The value of the four bytes of one word. -/
def wordOf : Bytes → UInt32
  | b0 :: b1 :: b2 :: b3 :: _ =>
      UInt32.ofNat (b0.toNat * 2 ^ 24 + b1.toNat * 2 ^ 16 + b2.toNat * 2 ^ 8 + b3.toNat)
  | _ => 0

/-- One word. -/
def readWord (stream : Bytes) : Option (UInt32 × Bytes) :=
  (inlineDecode 4 stream).map fun (word, rest) => (wordOf word, rest)

/-- The value of two words read as one 64-bit value. -/
def hyperOf (high low : UInt32) : UInt64 := UInt64.ofNat (high.toNat * 2 ^ 32 + low.toNat)

/-- A counted opaque. -/
def readOpaque (stream : Bytes) : Option (Bytes × Bytes) :=
  match readWord stream with
  | some (len, rest) => inlineDecode len.toNat rest
  | none => none

/-! ### Readers undo writers -/

@[simp] theorem wordOf_wordBytes (w : UInt32) (rest : Bytes) :
    wordOf (wordBytes w ++ rest) = w := by
  have bound : w.toNat < 4294967296 := w.toNat_lt
  apply UInt32.toNat_inj.mp
  simp only [wordBytes, List.cons_append, wordOf, UInt8.toNat_ofNat', UInt32.toNat_ofNat']
  omega

/-- Decoding as many bytes as an opaque of known length holds gives back its data. -/
theorem inlineDecode_opaqueFixed (data rest : Bytes) :
    inlineDecode data.length (opaqueFixed data ++ rest) = some (data, rest) := by
  have room := le_quadlen data.length
  have len := length_opaqueFixed data
  rw [inlineDecode, if_pos (by rw [List.length_append, len]; omega)]
  congr 2
  · rw [opaqueFixed, List.append_assoc, List.take_left' rfl]
  · rw [List.drop_left' len]

/-- Data of whole words has no padding. -/
theorem inlineDecode_aligned {data : Bytes} {k : Nat} (aligned : data.length = 4 * k) (rest : Bytes) :
    inlineDecode (4 * k) (data ++ rest) = some (data, rest) := by
  have none : padding data.length = [] := by
    simp only [padding, quadlen, aligned, List.replicate_eq_nil_iff]
    omega
  have decoded := inlineDecode_opaqueFixed data rest
  rw [opaqueFixed, none, List.append_nil, aligned] at decoded
  exact decoded

@[simp] theorem readWord_wordBytes (w : UInt32) (rest : Bytes) :
    readWord (wordBytes w ++ rest) = some (w, rest) := by
  have decoded : inlineDecode 4 (wordBytes w ++ rest) = some (wordBytes w, rest) :=
    inlineDecode_aligned (k := 1) rfl rest
  have value := wordOf_wordBytes w []
  rw [List.append_nil] at value
  simp only [readWord, decoded, Option.map_some, value]

theorem hyperOf_words (v : UInt64) : hyperOf (highWord v) (lowWord v) = v := by
  have bound : v.toNat < 18446744073709551616 := v.toNat_lt
  apply UInt64.toNat_inj.mp
  simp only [hyperOf, highWord, lowWord, UInt64.toNat_ofNat', UInt32.toNat_ofNat']
  omega

/-- A counted opaque whose length fits the count is read back. -/
theorem readOpaque_opaqueBytes {data : Bytes} (fits : data.length < 2 ^ 32) (rest : Bytes) :
    readOpaque (opaqueBytes data ++ rest) = some (data, rest) := by
  have count : (UInt32.ofNat data.length).toNat = data.length := by
    rw [UInt32.toNat_ofNat', Nat.mod_eq_of_lt fits]
  rw [readOpaque, opaqueBytes, List.append_assoc, readWord_wordBytes]
  simp only [count]
  exact inlineDecode_opaqueFixed data rest

/-- Bytes behind the ones a reader takes stay behind. -/
theorem inlineDecode_append {n : Nat} {stream : Bytes} {pair : Bytes × Bytes} (extra : Bytes)
    (decoded : inlineDecode n stream = some pair) :
    inlineDecode n (stream ++ extra) = some (pair.1, pair.2 ++ extra) := by
  rw [inlineDecode] at decoded ⊢
  have filled := le_quadlen n
  split at decoded
  · rename_i room
    cases decoded
    rw [if_pos (by rw [List.length_append]; omega), List.take_append_of_le_length (by omega),
      List.drop_append_of_le_length room]
  · cases decoded

end Nfs4Compound.Xdr
