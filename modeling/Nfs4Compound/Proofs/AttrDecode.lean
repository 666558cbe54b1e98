/-
Module: Nfs4Compound.Proofs.AttrDecode
Layer: Proofs
Purpose: The attribute decoders undo the wire form of the attributes.  The bitmap word that is still to
  be worked off is always the mask of the fields that follow, so each decoder finds its own bit lowest,
  takes its field off the stream and clears the bit; the decoders of attributes that were not asked for
  find nothing.
Imports: Nfs4Compound.Rpc.Server
Trusted boundary: none
Main exports: Rising, attrValue_reads, fattrOf, decodeGetfattrAttrs_reads
-/
import Nfs4Compound.Rpc.Server
import Mathlib.Data.Nat.Bitwise
import Mathlib.Tactic.Ring

namespace Nfs4Compound.Rpc

open Xdr

/-! ### Masks of increasing bits -/

/-- The bits of the fields increase, starting from `bit` on, inside one word. -/
def Rising (bit : Nat) : List (Nat × Option Bytes) → Prop
  | [] => True
  | (b, _) :: fields => bit ≤ b ∧ b < 32 ∧ Rising (b + 1) fields

theorem maskOf_dvd {fields : List (Nat × Option Bytes)} :
    ∀ {bit : Nat}, Rising bit fields → 2 ^ bit ∣ maskOf fields := by
  induction fields with
  | nil =>
      intro bit _
      exact Dvd.intro 0 rfl
  | cons field fields inductionHypothesis =>
      intro bit rising
      obtain ⟨least, -, rest⟩ := rising
      have others : 2 ^ bit ∣ maskOf fields :=
        dvd_trans (Nat.pow_dvd_pow 2 (by omega)) (inductionHypothesis rest)
      obtain ⟨b, v⟩ := field
      cases v with
      | none => exact others
      | some data => exact Nat.dvd_add (Nat.pow_dvd_pow 2 least) others

theorem maskOf_lt {fields : List (Nat × Option Bytes)} :
    ∀ {bit : Nat}, Rising bit fields → bit ≤ 32 → maskOf fields + 2 ^ bit ≤ 2 ^ 32 := by
  induction fields with
  | nil =>
      intro bit _ inWord
      rw [maskOf, Nat.zero_add]
      exact Nat.pow_le_pow_right (by omega) inWord
  | cons field fields inductionHypothesis =>
      intro bit rising _
      obtain ⟨least, below, rest⟩ := rising
      have others := inductionHypothesis rest below
      have lowest : 2 ^ bit ≤ 2 ^ field.1 := Nat.pow_le_pow_right (by omega) least
      have double : 2 ^ (field.1 + 1) = 2 * 2 ^ field.1 := by ring
      obtain ⟨b, v⟩ := field
      cases v with
      | none =>
          simp only [maskOf] at lowest double others ⊢
          omega
      | some data =>
          simp only [maskOf] at lowest double others ⊢
          omega

theorem toNat_maskOf {fields : List (Nat × Option Bytes)} {bit : Nat} (rising : Rising bit fields)
    (inWord : bit ≤ 32) : (UInt32.ofNat (maskOf fields)).toNat = maskOf fields := by
  have small : maskOf fields < 2 ^ 32 := by
    have bound := maskOf_lt rising inWord
    have positive : 0 < 2 ^ bit := Nat.two_pow_pos bit
    omega
  rw [UInt32.toNat_ofNat', Nat.mod_eq_of_lt small]

theorem toNat_attrBit {bit : Nat} (inWord : bit < 32) : (attrBit bit).toNat = 2 ^ bit := by
  rw [attrBit, UInt32.toNat_ofNat', Nat.mod_eq_of_lt (Nat.pow_lt_pow_right (by omega) inWord)]

theorem toNat_attrBit_sub_one {bit : Nat} (inWord : bit < 32) :
    (attrBit bit - 1).toNat = 2 ^ bit - 1 := by
  have positive : 0 < 2 ^ bit := Nat.two_pow_pos bit
  have below : (1 : UInt32) ≤ attrBit bit := by
    rw [UInt32.le_iff_toNat_le, toNat_attrBit inWord]
    exact positive
  rw [UInt32.toNat_sub_of_le _ _ below, toNat_attrBit inWord]
  rfl

/-- No bit below the lowest field is set. -/
theorem mask_low {fields : List (Nat × Option Bytes)} {bit : Nat} (rising : Rising bit fields)
    (inWord : bit < 32) : UInt32.ofNat (maskOf fields) &&& (attrBit bit - 1) = 0 := by
  apply UInt32.toNat_inj.mp
  rw [UInt32.toNat_and, toNat_maskOf rising (by omega), toNat_attrBit_sub_one inWord,
    Nat.and_two_pow_sub_one_eq_mod, Nat.mod_eq_zero_of_dvd (maskOf_dvd rising)]
  rfl

theorem mask_absent {fields : List (Nat × Option Bytes)} {bit : Nat}
    (rising : Rising (bit + 1) fields) (inWord : bit < 32) :
    UInt32.ofNat (maskOf fields) &&& attrBit bit = 0 := by
  obtain ⟨k, multiple⟩ := maskOf_dvd rising
  apply UInt32.toNat_inj.mp
  rw [UInt32.toNat_and, toNat_maskOf rising (by omega), toNat_attrBit inWord, Nat.and_two_pow,
    multiple,
    Nat.pow_succ, Nat.mul_assoc, Nat.testBit_two_pow_mul]
  simp

/-- The lowest field's bit, when it is there, is set. -/
theorem mask_testBit {fields : List (Nat × Option Bytes)} {bit : Nat}
    (rising : Rising (bit + 1) fields) : (2 ^ bit + maskOf fields).testBit bit = true := by
  obtain ⟨k, multiple⟩ := maskOf_dvd rising
  rw [multiple, show 2 ^ bit + 2 ^ (bit + 1) * k = 2 ^ bit * (2 * k + 1) by ring,
    Nat.testBit_two_pow_mul]
  simp

theorem mask_present {fields : List (Nat × Option Bytes)} {bit : Nat} {data : Bytes}
    (rising : Rising (bit + 1) fields) (inWord : bit < 32) :
    UInt32.ofNat (maskOf ((bit, some data) :: fields)) &&& attrBit bit ≠ 0 := by
  have own : Rising bit ((bit, some data) :: fields) := ⟨le_refl bit, inWord, rising⟩
  intro zero
  have value := congrArg UInt32.toNat zero
  rw [UInt32.toNat_and, toNat_maskOf own (by omega), toNat_attrBit inWord, Nat.and_two_pow, maskOf,
    mask_testBit rising] at value
  have positive : 0 < 2 ^ bit := Nat.two_pow_pos bit
  simp at value

/-- Clearing the lowest field's bit leaves the mask of the others. -/
theorem mask_clear {fields : List (Nat × Option Bytes)} {bit : Nat} {data : Bytes}
    (rising : Rising (bit + 1) fields) (inWord : bit < 32) :
    UInt32.ofNat (maskOf ((bit, some data) :: fields)) &&& ~~~(attrBit bit) =
      UInt32.ofNat (maskOf fields) := by
  have own : Rising bit ((bit, some data) :: fields) := ⟨le_refl bit, inWord, rising⟩
  have above := maskOf_dvd rising
  have joined : 2 ^ bit + maskOf fields = maskOf fields ||| 2 ^ bit := by
    obtain ⟨k, multiple⟩ := above
    rw [multiple, Nat.add_comm]
    exact Nat.two_pow_add_eq_or_of_lt (Nat.pow_lt_pow_right (by omega) (by omega)) k
  have small : maskOf fields < 2 ^ 32 := by
    have toNat := toNat_maskOf rising (by omega)
    rw [← toNat]
    exact UInt32.toNat_lt _
  have belowWord : 2 ^ bit < 2 ^ 32 := Nat.pow_lt_pow_right (by omega) inWord
  apply UInt32.toNat_inj.mp
  rw [UInt32.toNat_and, toNat_maskOf own (by omega), UInt32.toNat_not, toNat_attrBit inWord,
    toNat_maskOf rising (by omega), maskOf, joined]
  apply Nat.eq_of_testBit_eq
  intro i
  have complement : (UInt32.size - 1 - 2 ^ bit).testBit i =
      (decide (i < 32) && !(2 ^ bit).testBit i) := by
    have form : UInt32.size - 1 - 2 ^ bit = 2 ^ 32 - (2 ^ bit + 1) := by
      have size : UInt32.size = 2 ^ 32 := rfl
      omega
    rw [form, Nat.testBit_two_pow_sub_succ belowWord]
  rw [Nat.testBit_and, Nat.testBit_or, complement]
  by_cases same : i = bit
  · subst same
    obtain ⟨k, multiple⟩ := above
    rw [Nat.testBit_two_pow_self, multiple, Nat.pow_succ, Nat.mul_assoc, Nat.testBit_two_pow_mul]
    simp
  · rw [Nat.testBit_two_pow_of_ne (Ne.symm same)]
    by_cases inside : i < 32
    · simp [inside]
    · have out : (maskOf fields).testBit i = false :=
        Nat.testBit_lt_two_pow (lt_of_lt_of_le small (Nat.pow_le_pow_right (by omega) (by omega)))
      simp [out]

/-! ### Values -/

/-- A decoder that takes some words and computes its value from them. -/
theorem words_reads {α : Type} {data : Bytes} {value : α} (words : Nat) (f : Bytes → α)
    (aligned : data.length = 4 * words) (computed : f data = value) (pos : Nat) (side : Results) :
    Reads (xdrInlineDecode (4 * words) >>= fun p => pure (f p)) data pos side value side := by
  have read := (inline_reads_words (-eio) words aligned pos side).bind_pure f
  rw [computed] at read
  exact read

/-- The first of some words, and the one behind it. -/
theorem wordOf_two (first second : UInt32) (rest : Bytes) :
    wordOf (wordBytes first ++ rest) = first ∧
      wordOf ((wordBytes first ++ (wordBytes second ++ rest)).drop 4) = second := by
  have behind : (wordBytes first ++ (wordBytes second ++ rest)).drop 4 = wordBytes second ++ rest :=
    List.drop_left' rfl
  rw [behind]
  exact ⟨wordOf_wordBytes first rest, wordOf_wordBytes second rest⟩

/-- The value of two consecutive words that hold a 64-bit value. -/
theorem hyperOf_hyperBytes (v : UInt64) (rest : Bytes) :
    hyperOf (wordOf (hyperBytes v ++ rest)) (wordOf ((hyperBytes v ++ rest).drop 4)) = v := by
  rw [hyperBytes, List.append_assoc, wordOf_wordBytes, (wordOf_two _ _ _).2, hyperOf_words]

theorem decodeWord_reads (w : UInt32) (pos : Nat) (side : Results) :
    Reads decodeWord (wordBytes w) pos side w side := by
  have value := wordOf_wordBytes w []
  rw [List.append_nil] at value
  exact words_reads 1 wordOf rfl value pos side

theorem decodeHyper_reads (v : UInt64) (pos : Nat) (side : Results) :
    Reads decodeHyper (hyperBytes v) pos side v side := by
  have value := hyperOf_hyperBytes v []
  rw [List.append_nil] at value
  exact words_reads 2 (fun p => hyperOf (wordOf p) (wordOf (p.drop 4))) rfl value pos side

theorem decodeFsid_reads (v : Fsid) (pos : Nat) (side : Results) :
    Reads decodeFsid (hyperBytes v.major ++ hyperBytes v.minor) pos side v side := by
  have minor := hyperOf_hyperBytes v.minor []
  rw [List.append_nil] at minor
  have second : (hyperBytes v.major ++ hyperBytes v.minor).drop 8 = hyperBytes v.minor :=
    List.drop_left' rfl
  have third : (hyperBytes v.major ++ hyperBytes v.minor).drop 12 = (hyperBytes v.minor).drop 4 := by
    rw [show 12 = 8 + 4 from rfl, ← List.drop_drop, second]
  apply words_reads 4
    (fun p => ({ major := hyperOf (wordOf p) (wordOf (p.drop 4)),
                 minor := hyperOf (wordOf (p.drop 8)) (wordOf (p.drop 12)) } : Fsid)) rfl
  rw [second, third, hyperOf_hyperBytes, minor]

theorem decodeRdev_reads (v : UInt32 × UInt32) (pos : Nat) (side : Results) :
    Reads decodeRdev (wordBytes v.1 ++ wordBytes v.2) pos side v side := by
  have second := (wordOf_two v.1 v.2 []).2
  rw [List.append_nil] at second
  apply words_reads 2 (fun p => (wordOf p, wordOf (p.drop 4))) rfl
  rw [wordOf_wordBytes, second]

theorem decodeAttrTime_reads (v : Timespec) (pos : Nat) (side : Results) :
    Reads decodeAttrTime (timeBytes v) pos side v side := by
  have last := wordOf_wordBytes v.tvNsec []
  rw [List.append_nil] at last
  have nsec : (timeBytes v).drop 8 = wordBytes v.tvNsec := List.drop_left' rfl
  apply words_reads 3
    (fun p => ({ tvSec := hyperOf (wordOf p) (wordOf (p.drop 4)),
                 tvNsec := wordOf (p.drop 8) } : Timespec)) rfl
  rw [nsec, last, timeBytes, hyperOf_hyperBytes]

theorem decodeString_reads {data : Bytes} (fits : data.length < 2 ^ 32) (pos : Nat)
    (side : Results) : Reads decodeString (opaqueBytes data) pos side data side := by
  have count : (UInt32.ofNat data.length).toNat = data.length := by
    rw [UInt32.toNat_ofNat', Nat.mod_eq_of_lt fits]
  apply (decodeWord_reads _ pos side).bind
  rw [count]
  exact inline_reads (-eio) data _ side

/-! ### One attribute -/

/-- The bytes of a field that may be missing. -/
def optBytes (v : Option Bytes) : Bytes := v.getD []

theorem maskOf_cons_none (bit : Nat) (fields : List (Nat × Option Bytes)) :
    maskOf ((bit, none) :: fields) = maskOf fields := rfl

/-- An attribute whose bit stands lowest in its word, or is missing there, is read as the server wrote
    it, and its bit is gone afterwards. -/
theorem attrValue_reads {α : Type} {word : BitmapWord} {bit : Nat} {read : Decode α} {v : Option α}
    {wire : α → Bytes} {fields : List (Nat × Option Bytes)} {side : Results}
    (rising : Rising (bit + 1) fields) (inWord : bit < 32)
    (announced : side.bitmap.get word = UInt32.ofNat (maskOf ((bit, v.map wire) :: fields)))
    (reads : ∀ a, v = some a → ∀ pos side, Reads read (wire a) pos side a side) (pos : Nat) :
    Reads (attrValue word bit read) (optBytes (v.map wire)) pos side v
      { side with bitmap := side.bitmap.set (UInt32.ofNat (maskOf fields)) word } := by
  have own : Rising bit ((bit, v.map wire) :: fields) := ⟨le_refl bit, inWord, rising⟩
  have low : ¬ side.bitmap.get word &&& (attrBit bit - 1) ≠ 0 := by
    rw [announced, mask_low own inWord]
    exact not_not.mpr rfl
  apply (getSide_reads pos side).bind_nil
  cases v with
  | none =>
      rw [Option.map_none, maskOf_cons_none] at announced
      have absent : ¬ side.bitmap.get word &&& attrBit bit ≠ 0 := by
        rw [announced, mask_absent rising inWord]
        exact not_not.mpr rfl
      have kept : side.bitmap.set (UInt32.ofNat (maskOf fields)) word = side.bitmap := by
        rw [← announced]
        cases word <;> rfl
      rw [if_neg low, if_neg absent, kept]
      exact Reads.pure pos side none
  | some a =>
      rw [Option.map_some] at announced
      have present : side.bitmap.get word &&& attrBit bit ≠ 0 := by
        rw [announced]
        exact mask_present rising inWord
      rw [if_neg low, if_pos present]
      have stored := (modifySide_reads (ε := Int) (fun r : Results =>
        { r with bitmap := r.bitmap.set (r.bitmap.get word &&& ~~~(attrBit bit)) word })
        (pos + (wire a).length) side).bind_pure fun _ => some a
      rw [announced, mask_clear rising inWord] at stored
      exact (reads a rfl pos side).bind_done stored

/-- An attribute that was not asked for is not there. -/
theorem attrValue_skips {α : Type} {word : BitmapWord} {bit : Nat} {read : Decode α}
    {fields : List (Nat × Option Bytes)} {side : Results} (rising : Rising (bit + 1) fields)
    (inWord : bit < 32) (announced : side.bitmap.get word = UInt32.ofNat (maskOf fields))
    (pos : Nat) : Reads (attrValue word bit read) [] pos side none side := by
  have skipped : Reads (attrValue word bit read) (optBytes ((none : Option α).map fun _ => [])) pos
      side none { side with bitmap := side.bitmap.set (UInt32.ofNat (maskOf fields)) word } :=
    attrValue_reads rising inWord announced (fun _ impossible => absurd impossible (by simp)) pos
  have kept : side.bitmap.set (UInt32.ofNat (maskOf fields)) word = side.bitmap := by
    rw [← announced]
    cases word <;> rfl
  rw [kept] at skipped
  exact skipped

/-! ### The state between two attributes -/

/-- While the attributes of slot `i` are decoded: `f` is what the slot holds so far, `fields0` and
    `fields1` are still to come. -/
def progress (r : Results) (i : Nat) (f : Fattr) (fields0 fields1 : List (Nat × Option Bytes)) :
    Results :=
  { r with
    fattrs := setSlot r.fattrs i f
    bitmap :=
      { w0 := UInt32.ofNat (maskOf fields0), w1 := UInt32.ofNat (maskOf fields1), w2 := 0 } }

theorem setSlot_setSlot {α : Type} (slots : Nat → α) (i : Nat) (a b : α) :
    setSlot (setSlot slots i a) i b = setSlot slots i b := by
  funext j
  unfold setSlot
  split <;> rfl

theorem setSlot_same {α : Type} (slots : Nat → α) (i : Nat) (a : α) : setSlot slots i a i = a :=
  if_pos rfl

theorem setFattr_reads (f : Fattr → Fattr) (r : Results) (i : Nat) (g : Fattr)
    (fields0 fields1 : List (Nat × Option Bytes)) (pos : Nat) :
    Reads (setFattr i f) [] pos (progress r i g fields0 fields1) ()
      (progress r i (f g) fields0 fields1) := by
  have stored := modifySide_reads (ε := Int)
    (fun r : Results => { r with fattrs := setSlot r.fattrs i (f (r.fattrs i)) }) pos
    (progress r i g fields0 fields1)
  simp only [progress, setSlot_same, setSlot_setSlot] at stored
  exact stored

section Fields

variable {α β : Type} {bit : Nat} {read : Decode α} {v : Option α} {wire : α → Bytes}
  {set : β → Fattr → Fattr} {default : β} {value : α → β} {valid i pos : Nat} {r : Results} {f : Fattr}

/-- The field holds the value, or its default, and the `valid` bit says which. -/
theorem decodeField_reads {word : BitmapWord}
    {before0 before1 after0 after1 : List (Nat × Option Bytes)}
    (overwrites : ∀ x y f, set x (set y f) = set x f)
    (reads : ∀ g, Reads (attrValue word bit read) (optBytes (v.map wire)) pos
      (progress r i g before0 before1) v (progress r i g after0 after1)) :
    Reads (decodeField word bit read set default value valid i) (optBytes (v.map wire)) pos
      (progress r i f before0 before1) ()
      (progress r i ((set ((v.map value).getD default) f).markIf v.isSome valid) after0 after1) := by
  apply (setFattr_reads (set default) r i f before0 before1 pos).bind_nil
  apply (reads (set default f)).bind_done
  cases v with
  | none =>
      have same : (set default f).markIf false valid = set default f := by simp [Fattr.markIf]
      simp only [Option.map_none, Option.getD_none, Option.isSome_none, same]
      exact Reads.pure _ _ ()
  | some a =>
      have stored := setFattr_reads (fun f => (set (value a) f).markIf true valid) r i
        (set default f) after0 after1 (pos + (optBytes ((some a).map wire)).length)
      simp only [overwrites] at stored
      exact stored

/-- A field of the first word. -/
theorem decodeField_reads0 {fields fields1 : List (Nat × Option Bytes)}
    (overwrites : ∀ x y f, set x (set y f) = set x f)
    (reads : ∀ a, v = some a → ∀ pos side, Reads read (wire a) pos side a side)
    (rising : Rising (bit + 1) fields) (inWord : bit < 32) :
    Reads (decodeField .word0 bit read set default value valid i) (optBytes (v.map wire)) pos
      (progress r i f ((bit, v.map wire) :: fields) fields1) ()
      (progress r i ((set ((v.map value).getD default) f).markIf v.isSome valid) fields fields1) :=
  decodeField_reads overwrites fun _ => attrValue_reads rising inWord rfl reads pos

/-- A field of the second word. -/
theorem decodeField_reads1 {fields fields0 : List (Nat × Option Bytes)}
    (overwrites : ∀ x y f, set x (set y f) = set x f)
    (reads : ∀ a, v = some a → ∀ pos side, Reads read (wire a) pos side a side)
    (rising : Rising (bit + 1) fields) (inWord : bit < 32) :
    Reads (decodeField .word1 bit read set default value valid i) (optBytes (v.map wire)) pos
      (progress r i f fields0 ((bit, v.map wire) :: fields)) ()
      (progress r i ((set ((v.map value).getD default) f).markIf v.isSome valid) fields0 fields) :=
  decodeField_reads overwrites fun _ => attrValue_reads rising inWord rfl reads pos

end Fields

/-! ### The attributes with a body of their own -/

theorem decodeAttrType_reads {t : Option FileType} {i : Nat} {r : Results} {f : Fattr}
    {fields fields1 : List (Nat × Option Bytes)} (rising : Rising 2 fields) (pos : Nat) :
    Reads decodeAttrType (optBytes ((t.map FileType.code).map wordBytes)) pos
      (progress r i f ((1, (t.map FileType.code).map wordBytes) :: fields) fields1)
      (t.map FileType.code) (progress r i f fields fields1) := by
  apply attrValue_reads rising (by omega) rfl
  intro code present pos side
  obtain ⟨type, -, rfl⟩ := Option.map_eq_some_iff.mp present
  have known : ¬ (type.code.toNat < 1 ∨ type.code.toNat > 9) := by cases type <;> decide
  apply (decodeWord_reads type.code pos side).bind_done
  rw [if_neg known]
  exact Reads.pure _ side type.code

/-- The first step leaves a mode with the file type only. -/
theorem decodeAttrTypeMode_reads {t : Option FileType} {i : Nat} {r : Results} {f : Fattr}
    {fields fields1 : List (Nat × Option Bytes)} (rising : Rising 2 fields) (pos : Nat) :
    Reads (decodeAttrTypeMode i) (optBytes ((t.map FileType.code).map wordBytes)) pos
      (progress r i f ((1, (t.map FileType.code).map wordBytes) :: fields) fields1) ()
      (progress r i
        ({ f with mode := (t.map fun t : FileType => nfsType2fmt t.code).getD 0 }.markIf t.isSome 0)
        fields fields1) := by
  apply (decodeAttrType_reads rising pos).bind_done
  apply (setFattr_reads _ r i f fields fields1 _).bind_nil
  cases t with
  | none =>
      simp only [Option.map_none, Option.getD_none, Option.isSome_none, Fattr.markIf,
        Bool.false_eq_true, if_false, UInt32.or_zero]
      exact Reads.pure _ _ ()
  | some type =>
      have stored := setFattr_reads
        (fun f => { f with mode := f.mode ||| nfsType2fmt type.code }.markIf true 0) r i
        { f with mode := 0 } fields fields1
        (pos + (optBytes (((some type).map FileType.code).map wordBytes)).length)
      simp only [UInt16.zero_or] at stored
      exact stored

theorem decodeAttrMode_reads {v : Option UInt32} {i : Nat} {r : Results} {f : Fattr}
    {fields fields0 : List (Nat × Option Bytes)} (rising : Rising 2 fields) (pos : Nat) :
    Reads (decodeAttrMode i) (optBytes (v.map wordBytes)) pos
      (progress r i f fields0 ((1, v.map wordBytes) :: fields)) ()
      (progress r i ({ f with mode := f.mode ||| (v.map permBits).getD 0 }.markIf v.isSome 1)
        fields0 fields) := by
  apply (attrValue_reads rising (by omega) rfl (fun a _ => decodeWord_reads a) pos).bind_done
  cases v with
  | none =>
      simp only [Option.map_none, Option.getD_none, Option.isSome_none, Fattr.markIf,
        Bool.false_eq_true, if_false, UInt32.or_zero, UInt16.or_zero]
      exact Reads.pure _ _ ()
  | some mode =>
      exact setFattr_reads
        (fun f => { f with mode := f.mode ||| permBits mode }.markIf true 1) r i f fields0 fields _

/-- The id a name is mapped to, and whether the mapping counts. -/
def mapped (map : Bytes → UInt32 → UInt32 × Bool) (name : Option Bytes) : UInt32 × Bool :=
  (name.map (mapName map)).getD (nobody, false)

theorem decodeName_reads {bit valid i : Nat} {map : Bytes → UInt32 → UInt32 × Bool}
    {set : UInt32 → Fattr → Fattr} {v : Option Bytes} {r : Results} {f : Fattr}
    {fields fields0 : List (Nat × Option Bytes)}
    (overwrites : ∀ x y f, set x (set y f) = set x f)
    (fits : ∀ name, v = some name → name.length < 2 ^ 32) (rising : Rising (bit + 1) fields)
    (inWord : bit < 32) (pos : Nat) :
    Reads (decodeName bit map set valid i) (optBytes (v.map opaqueBytes)) pos
      (progress r i f fields0 ((bit, v.map opaqueBytes) :: fields)) ()
      (progress r i ((set (mapped map v).1 f).markIf (mapped map v).2 valid) fields0 fields) := by
  apply (setFattr_reads (set nobody) r i f _ _ pos).bind_nil
  apply (attrValue_reads rising inWord rfl (fun name present => decodeString_reads (fits name present))
    pos).bind_done
  cases v with
  | none =>
      have same : (set nobody f).markIf false valid = set nobody f := by simp [Fattr.markIf]
      simp only [mapped, Option.map_none, Option.getD_none, same]
      exact Reads.pure _ _ ()
  | some name =>
      have stored := setFattr_reads
        (fun f => (set (mapName map name).1 f).markIf (mapName map name).2 valid) r i
        (set nobody f) fields0 fields (pos + (optBytes ((some name).map opaqueBytes)).length)
      simp only [overwrites] at stored
      exact stored

/-- The last step finds no label. -/
theorem decodeAttrLabel_reads {i : Nat} {r : Results} {f : Fattr}
    {fields0 fields1 : List (Nat × Option Bytes)} (pos : Nat) :
    Reads (decodeAttrLabel i) [] pos (progress r i f fields0 fields1) ()
      (progress r i f fields0 fields1) := by
  apply (getSide_reads pos _).bind_nil
  cases (progress r i f fields0 fields1).labels i with
  | none => exact Reads.pure pos _ ()
  | some label =>
      apply (attrValue_skips (show Rising (16 + 1) [] from trivial) (by omega) rfl pos).bind_nil
      exact Reads.pure pos _ ()

/-- An attribute that was not asked for, in the first word. -/
theorem skip_reads0 {α : Type} {bit : Nat} {read : Decode α} {i : Nat} {r : Results} {f : Fattr}
    {fields0 fields1 : List (Nat × Option Bytes)} (rising : Rising (bit + 1) fields0)
    (inWord : bit < 32) (pos : Nat) :
    Reads (do let _ ← attrValue .word0 bit read; pure ()) [] pos (progress r i f fields0 fields1) ()
      (progress r i f fields0 fields1) :=
  (attrValue_skips rising inWord rfl pos).bind_pure fun _ => ()

theorem decodeAttrMdsthreshold_reads {i : Nat} {r : Results} {f : Fattr}
    {fields0 fields1 : List (Nat × Option Bytes)} (pos : Nat) :
    Reads decodeAttrMdsthreshold [] pos (progress r i f fields0 fields1) ()
      (progress r i f fields0 fields1) :=
  (attrValue_skips (show Rising (4 + 1) [] from trivial) (by omega) rfl pos).bind_pure fun _ => ()

/-! ### All attributes -/

/-- The attributes of a file as the client keeps them: a missing attribute has its default value, and
    `valid` gains the bits of the attributes that are there. -/
def fattrOf (idmap : IdMap) (a : FileAttrs) (f : Fattr) : Fattr :=
  ({ valid := f.valid
     mode := (a.type.map fun t => nfsType2fmt t.code).getD 0 ||| (a.mode.map permBits).getD 0
     nlink := a.numlinks.getD 1
     uid := (mapped idmap.uid a.owner).1
     gid := (mapped idmap.gid a.ownerGroup).1
     rdev := (a.rawdev.map fun d => rdevOf d.1 d.2).getD 0
     size := a.size.getD 0
     used := a.spaceUsed.getD 0
     fsid := a.fsid.getD { major := 0, minor := 0 }
     fileid := a.fileid.getD 0
     mountedOnFileid := a.mountedOnFileid.getD 0
     atime := a.timeAccess.getD Timespec.zero
     mtime := a.timeModify.getD Timespec.zero
     ctime := a.timeMetadata.getD Timespec.zero
     changeAttr := a.change.getD 0 } : Fattr)
    |>.markIf a.type.isSome 0 |>.markIf a.change.isSome 17 |>.markIf a.size.isSome 6
    |>.markIf a.fsid.isSome 10 |>.markIf a.fileid.isSome 11 |>.markIf a.mode.isSome 1
    |>.markIf a.numlinks.isSome 2 |>.markIf (mapped idmap.uid a.owner).2 3
    |>.markIf (mapped idmap.gid a.ownerGroup).2 4 |>.markIf a.rawdev.isSome 5
    |>.markIf a.spaceUsed.isSome 9 |>.markIf a.timeAccess.isSome 12
    |>.markIf a.timeMetadata.isSome 14 |>.markIf a.timeModify.isSome 13
    |>.markIf a.mountedOnFileid.isSome 22

theorem fieldsBytes_cons (bit : Nat) (v : Option Bytes) (fields : List (Nat × Option Bytes)) :
    fieldsBytes ((bit, v) :: fields) = optBytes v ++ fieldsBytes fields := by
  cases v <;> rfl

/-- A counted string among fields that fit the stream fits it too. -/
theorem length_lt_of_field {bit : Nat} {name : Bytes} {fields : List (Nat × Option Bytes)}
    (member : (bit, some (opaqueBytes name)) ∈ fields) :
    name.length < (fieldsBytes fields).length := by
  induction fields with
  | nil => cases member
  | cons field fields inductionHypothesis =>
      obtain ⟨b, v⟩ := field
      rw [fieldsBytes_cons, List.length_append]
      rcases List.mem_cons.mp member with same | later
      · cases same
        have filled := le_quadlen name.length
        rw [optBytes, Option.getD_some, length_opaqueBytes]
        omega
      · have rest := inductionHypothesis later
        omega

theorem owner_fits {reply : AttrReply} {name : Bytes} (present : reply.attrs.owner = some name) :
    name.length < 2 ^ 32 := by
  have fits := reply.fits
  have short := length_lt_of_field
    (show (4, some (opaqueBytes name)) ∈ reply.attrs.fields1 by simp [FileAttrs.fields1, present])
  rw [FileAttrs.values, List.length_append] at fits
  omega

theorem ownerGroup_fits {reply : AttrReply} {name : Bytes}
    (present : reply.attrs.ownerGroup = some name) : name.length < 2 ^ 32 := by
  have fits := reply.fits
  have short := length_lt_of_field
    (show (5, some (opaqueBytes name)) ∈ reply.attrs.fields1 by simp [FileAttrs.fields1, present])
  rw [FileAttrs.values, List.length_append] at fits
  omega

/-- The values, field by field. -/
theorem values_eq (a : FileAttrs) :
    a.values =
      optBytes ((a.type.map FileType.code).map wordBytes) ++ (optBytes (a.change.map hyperBytes) ++
      (optBytes (a.size.map hyperBytes) ++
      (optBytes (a.fsid.map fun f => hyperBytes f.major ++ hyperBytes f.minor) ++
      (optBytes (a.fileid.map hyperBytes) ++ (optBytes (a.mode.map wordBytes) ++
      (optBytes (a.numlinks.map wordBytes) ++ (optBytes (a.owner.map opaqueBytes) ++
      (optBytes (a.ownerGroup.map opaqueBytes) ++
      (optBytes (a.rawdev.map fun d => wordBytes d.1 ++ wordBytes d.2) ++
      (optBytes (a.spaceUsed.map hyperBytes) ++ (optBytes (a.timeAccess.map timeBytes) ++
      (optBytes (a.timeMetadata.map timeBytes) ++ (optBytes (a.timeModify.map timeBytes) ++
      (optBytes (a.mountedOnFileid.map hyperBytes) ++ [])))))))))))))) := by
  simp only [FileAttrs.values, FileAttrs.fields0, FileAttrs.fields1, fieldsBytes_cons, fieldsBytes,
    List.append_assoc, List.nil_append]

/-- Decoding the values of the attributes fills the slot with exactly these attributes. -/
theorem decodeGetfattrAttrs_reads (idmap : IdMap) (reply : AttrReply) (i : Nat) (r : Results)
    (f : Fattr) (pos : Nat) :
    Reads (decodeGetfattrAttrs idmap i) reply.attrs.values pos
      (progress r i f reply.attrs.fields0 reply.attrs.fields1) ()
      (progress r i (fattrOf idmap reply.attrs f) [] []) := by
  rw [values_eq]
  apply (decodeAttrTypeMode_reads (by simp [Rising]) _).bind
  -- change, size and fsid
  apply (decodeField_reads0 (by intros; rfl) (fun v _ => decodeHyper_reads v) (by simp [Rising])
    (by omega)).bind
  apply (decodeField_reads0 (by intros; rfl) (fun v _ => decodeHyper_reads v) (by simp [Rising])
    (by omega)).bind
  apply (decodeField_reads0 (by intros; rfl) (fun v _ => decodeFsid_reads v) (by simp [Rising])
    (by omega)).bind
  -- rdattr_error and filehandle are never asked for
  apply (skip_reads0 (by simp [Rising]) (by omega) _).bind_nil
  apply (skip_reads0 (by simp [Rising]) (by omega) _).bind_nil
  apply (decodeField_reads0 (by intros; rfl) (fun v _ => decodeHyper_reads v) (by simp [Rising])
    (by omega)).bind
  -- nor is fs_locations
  apply (skip_reads0 (by simp [Rising]) (by omega) _).bind_nil
  apply (decodeAttrMode_reads (by simp [Rising]) _).bind
  apply (decodeField_reads1 (by intros; rfl) (fun v _ => decodeWord_reads v) (by simp [Rising])
    (by omega)).bind
  apply (decodeName_reads (by intros; rfl) (fun _ => owner_fits) (by simp [Rising])
    (by omega) _).bind
  apply (decodeName_reads (by intros; rfl) (fun _ => ownerGroup_fits) (by simp [Rising])
    (by omega) _).bind
  apply (decodeField_reads1 (by intros; rfl) (fun v _ => decodeRdev_reads v) (by simp [Rising])
    (by omega)).bind
  apply (decodeField_reads1 (by intros; rfl) (fun v _ => decodeHyper_reads v) (by simp [Rising])
    (by omega)).bind
  -- the three times, then mounted_on_fileid
  apply (decodeField_reads1 (by intros; rfl) (fun v _ => decodeAttrTime_reads v) (by simp [Rising])
    (by omega)).bind
  apply (decodeField_reads1 (by intros; rfl) (fun v _ => decodeAttrTime_reads v) (by simp [Rising])
    (by omega)).bind
  apply (decodeField_reads1 (by intros; rfl) (fun v _ => decodeAttrTime_reads v) (by simp [Rising])
    (by omega)).bind
  apply (decodeField_reads1 (by intros; rfl) (fun v _ => decodeHyper_reads v) (by simp [Rising])
    (by omega)).bind
  apply (decodeAttrMdsthreshold_reads _).bind_nil
  have done := @decodeAttrLabel_reads i r (fattrOf idmap reply.attrs f) [] []
  simp only [fattrOf, Option.map_id] at done ⊢
  exact done _

end Nfs4Compound.Rpc
