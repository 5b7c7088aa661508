import Protocraft.Error
import Protocraft.Stream.Leb128

/-! `VarInt`: a 32-bit number in one to five bytes.

On the wire it is the shortest base-128 form of the number's 32 bits
(`VarInt.encode_eq`), and reading that form back gives the number and leaves what
follows it (`VarInt.fromReader_encode`). -/
namespace Protocraft
open Protocraft.Stream

structure VarInt where
  value : I32
  deriving DecidableEq, Repr

def segmentMask : BitVec 32 := 0x7f
def continueMaskU32 : BitVec 32 := 0x80
def continueMaskU8 : Byte := 0x80

namespace VarInt

/-! ### Reading -/

/-- Or-s each group in at its offset; `tooLong` when the last group allowed goes on. -/
def readSegments {β : Type} (tooLong : ReadError) :
    List Nat → BitVec 32 → Program ReadError β (BitVec 32)
  | [], _ => throw tooLong
  | offset :: offsets, value => do
    let curr := (← readU8).setWidth 32
    let value := value ||| (curr &&& segmentMask) <<< offset
    if curr &&& continueMaskU32 = 0 then return value
    else readSegments tooLong offsets value

def fromReader {β : Type} : Program ReadError β VarInt := do
  let value ← readSegments (.overSized "varint" 5 6) (List.range' 0 5 7) 0
  return ⟨value⟩

theorem segment_eq (b : Byte) :
    b.setWidth 32 &&& segmentMask = BitVec.ofNat 32 (b.toNat % 128) := by
  apply BitVec.eq_of_toNat_eq
  have hb := b.isLt
  have hmask : segmentMask.toNat = 2 ^ 7 - 1 := rfl
  rw [BitVec.toNat_and, BitVec.toNat_setWidth, hmask, Nat.and_two_pow_sub_one_eq_mod,
    BitVec.toNat_ofNat]
  omega

theorem continues_iff (b : Byte) : b.setWidth 32 &&& continueMaskU32 = 0 ↔ b.toNat < 128 := by
  revert b
  decide +kernel

/-- Or-ing a number in above the bits of another adds it. -/
theorem or_shiftLeft (m n k : Nat) (hm : m < 2 ^ k) :
    BitVec.ofNat 32 m ||| BitVec.ofNat 32 n <<< k = BitVec.ofNat 32 (m + n * 2 ^ k) := by
  have hdisjoint : BitVec.ofNat 32 m &&& BitVec.ofNat 32 n <<< k = 0#32 := by
    apply BitVec.eq_of_getLsbD_eq
    intro j hj
    by_cases hjk : j < k
    · simp [hjk]
    · have : m.testBit j = false :=
        Nat.testBit_lt_two_pow (Nat.lt_of_lt_of_le hm (Nat.pow_le_pow_right (by omega) (by omega)))
      rw [BitVec.getLsbD_and, BitVec.getLsbD_ofNat, this, Bool.and_false, Bool.false_and,
        BitVec.getLsbD_zero]
  rw [← BitVec.add_eq_or_of_and_eq_zero _ _ hdisjoint]
  apply BitVec.eq_of_toNat_eq
  simp [Nat.shiftLeft_eq]

/-- The groups read are the base-128 number at the front, or-ed in at the first offset. -/
theorem readSegments_eval {β : Type} (rem : Bytes → β) (tooLong : ReadError) (turns k n : Nat)
    (value : BitVec 32) (c c' : Bytes) (h : Leb128.decode turns c = some (n, c')) :
    (readSegments tooLong (List.range' k turns 7) value).eval rem c =
      (.ok (value ||| BitVec.ofNat 32 n <<< k), c') := by
  induction turns generalizing k value c n with
  | zero => cases h
  | succ turns ih =>
    cases c with
    | nil => cases h
    | cons b c =>
      rw [List.range'_succ, readSegments, readU8_bind_eval_cons]
      simp only [segment_eq, continues_iff]
      rw [Leb128.decode] at h
      split at h
      next hb =>
        cases h
        rw [if_pos hb, Nat.mod_eq_of_lt hb]
        rfl
      next hb =>
        obtain ⟨⟨n, c''⟩, hrest, heq⟩ := Option.map_eq_some_iff.mp h
        cases heq
        have hgroups : BitVec.ofNat 32 (b.toNat % 128) ||| BitVec.ofNat 32 n <<< 7 =
            BitVec.ofNat 32 (b.toNat % 128 + 128 * n) := by
          rw [Nat.mul_comm 128 n]
          exact or_shiftLeft _ n 7 (Nat.mod_lt _ (by decide))
        rw [if_neg hb, ih (k + 7) n _ c hrest, BitVec.or_assoc, Nat.add_comm k 7,
          BitVec.shiftLeft_add, ← BitVec.shiftLeft_or_distrib, hgroups]

/-- What is read is the base-128 number at the front, within five bytes. -/
theorem fromReader_eval {β : Type} (rem : Bytes → β) {c c' : Bytes} {n : Nat}
    (h : Leb128.decode 5 c = some (n, c')) :
    (fromReader : Program ReadError β VarInt).eval rem c = (.ok ⟨BitVec.ofNat 32 n⟩, c') := by
  have hvalue : (0 : BitVec 32) ||| BitVec.ofNat 32 n <<< 0 = BitVec.ofNat 32 n := by simp
  rw [fromReader, Program.eval_bind_ok (readSegments_eval rem _ 5 0 n 0 c c' h), hvalue]
  rfl

/-- Groups that all go on are taken, as far as they may. -/
theorem readSegments_eval_none {β : Type} (rem : Bytes → β) (tooLong : ReadError) (turns k : Nat)
    (value : BitVec 32) (c : Bytes) (h : Leb128.decode turns c = none) :
    (readSegments tooLong (List.range' k turns 7) value).eval rem c =
      if turns ≤ c.length then (.error tooLong, c.drop turns)
      else (.error (.streamError failedToFill), []) := by
  induction turns generalizing k value c with
  | zero => rfl
  | succ turns ih =>
    cases c with
    | nil => exact readU8_bind_eval_nil rem _
    | cons b c =>
      rw [List.range'_succ, readSegments, readU8_bind_eval_cons]
      simp only [segment_eq, continues_iff]
      rw [Leb128.decode] at h
      split at h
      next => cases h
      next hb =>
        rw [if_neg hb, ih (k + 7) _ c (Option.map_eq_none_iff.mp h), List.length_cons,
          List.drop_succ_cons]
        simp only [Nat.add_le_add_iff_right]

theorem fromReader_eval_none {β : Type} (rem : Bytes → β) {c : Bytes} (h : Leb128.decode 5 c = none) :
    (fromReader : Program ReadError β VarInt).eval rem c =
      if 5 ≤ c.length then (.error (.overSized "varint" 5 6), c.drop 5)
      else (.error (.streamError failedToFill), []) := by
  have hsegments := readSegments_eval_none rem (.overSized "varint" 5 6) 5 0 0 c h
  by_cases hlong : 5 ≤ c.length
  · rw [if_pos hlong] at hsegments ⊢
    exact Program.eval_bind_error hsegments
  · rw [if_neg hlong] at hsegments ⊢
    exact Program.eval_bind_error hsegments

theorem readSegments_strict {β : Type} (tooLong : ReadError) (offsets : List Nat) (value : BitVec 32) :
    (readSegments tooLong offsets value : Program ReadError β _).Strict := by
  induction offsets generalizing value with
  | nil => exact .done _
  | cons offset offsets ih =>
    refine readU8_strict.bind fun b => ?_
    dsimp only
    split
    · exact .done _
    · exact ih _

theorem fromReader_strict {β : Type} : (fromReader : Program ReadError β VarInt).Strict :=
  (readSegments_strict _ _ _).bind fun _ => .done _

theorem readSegments_fails {β : Type} {E : ReadError → Prop} (hstream : ∀ e, E (.streamError e))
    {tooLong : ReadError} (hlong : E tooLong) (offsets : List Nat) (value : BitVec 32) :
    (readSegments tooLong offsets value : Program ReadError β _).FailsWith E := by
  induction offsets generalizing value with
  | nil => exact hlong
  | cons offset offsets ih =>
    refine (readU8_fails hstream).bind fun b => ?_
    dsimp only
    split
    · exact trivial
    · exact ih _

/-- It fails when a read does, and when it is too long. -/
theorem fromReader_fails {β : Type} {E : ReadError → Prop} (hstream : ∀ e, E (.streamError e))
    (hlong : E (.overSized "varint" 5 6)) : (fromReader : Program ReadError β VarInt).FailsWith E :=
  (readSegments_fails hstream hlong _ _).bind fun _ => trivial

/-! ### Writing -/

/-- The bytes of `buf` up to and with the last one. -/
def encodeLoop (value : I32) : List Nat → Bytes → Except WriteError Bytes
  | [], _ => .error .malformedVarInt
  | index :: indices, buf =>
    let remaining := value >>> (index * 7)
    if remaining &&& ~~~segmentMask = 0 then .ok (buf ++ [remaining.setWidth 8])
    else encodeLoop value indices (buf ++ [(remaining &&& segmentMask).setWidth 8 ||| continueMaskU8])

def encode (v : VarInt) : Except WriteError Bytes := encodeLoop v.value [0, 1, 2, 3, 4] []

/-- `Serializable::size`; the logarithm of zero counts as zero. -/
def size (v : VarInt) : Nat := v.value.toNat.log2 / 7 + 1

theorem segmentMask_getLsbD (j : Nat) : segmentMask.getLsbD j = decide (j < 7) := by
  have hmask : segmentMask = BitVec.ofNat 32 (2 ^ 7 - 1) := rfl
  rw [hmask, BitVec.getLsbD_ofNat, Nat.testBit_two_pow_sub_one]
  by_cases hj : j < 7 <;> simp [hj]
  omega

theorem remaining_eq_zero (v : BitVec 32) : v &&& ~~~segmentMask = 0 ↔ v.toNat < 128 := by
  have hbit : ∀ j, (v &&& ~~~segmentMask).getLsbD j = (v.getLsbD j && decide (7 ≤ j)) := by
    intro j
    by_cases hj : j < 32
    · rw [BitVec.getLsbD_and, BitVec.getLsbD_not, segmentMask_getLsbD]
      by_cases h7 : j < 7
      · simp [h7, hj]
      · simp [hj, Nat.not_lt.mp h7]
    · simp [BitVec.getLsbD_of_ge v j (by omega)]
  constructor
  · intro h
    refine Nat.lt_pow_two_of_testBit (n := 7) v.toNat fun j hj => ?_
    have := hbit j
    rw [h] at this
    simpa [hj, BitVec.getLsbD] using this
  · intro h
    apply BitVec.eq_of_getLsbD_eq
    intro j hj
    rw [hbit j]
    by_cases h7 : 7 ≤ j
    · have : v.toNat.testBit j = false :=
        Nat.testBit_lt_two_pow
          (Nat.lt_of_lt_of_le h (Nat.pow_le_pow_right (n := 2) (by decide) h7))
      simp [BitVec.getLsbD, this]
    · simp [h7]

/-- A group that others follow. -/
theorem continued_eq (v : BitVec 32) :
    (v &&& segmentMask).setWidth 8 ||| continueMaskU8 = BitVec.ofNat 8 (v.toNat % 128 + 128) := by
  have hmask : segmentMask.toNat = 2 ^ 7 - 1 := rfl
  have hcontinue : continueMaskU8.toNat = 2 ^ 7 * 1 := rfl
  apply BitVec.eq_of_toNat_eq
  rw [BitVec.toNat_or, BitVec.toNat_setWidth, BitVec.toNat_and, hmask, hcontinue,
    Nat.and_two_pow_sub_one_eq_mod, BitVec.toNat_ofNat, Nat.mod_eq_of_lt (by omega), Nat.or_comm,
    ← Nat.two_pow_add_eq_or_of_lt (by omega)]
  omega

theorem encodeLoop_eq (value : I32) (turns index : Nat) (buf : Bytes)
    (h : value.toNat / 128 ^ index < 128 ^ turns) (hturns : 0 < turns) :
    encodeLoop value (List.range' index turns) buf =
      .ok (buf ++ Leb128.encode (value.toNat / 128 ^ index)) := by
  induction turns generalizing index buf with
  | zero => omega
  | succ turns ih =>
    have hpow : 2 ^ (index * 7) = 128 ^ index := by rw [Nat.mul_comm, Nat.pow_mul]
    have hremaining : (value >>> (index * 7)).toNat = value.toNat / 128 ^ index := by
      rw [BitVec.toNat_ushiftRight, Nat.shiftRight_eq_div_pow, hpow]
    rw [List.range'_succ, encodeLoop]
    simp only [remaining_eq_zero, continued_eq, hremaining]
    by_cases hlast : value.toNat / 128 ^ index < 128
    · rw [if_pos hlast, Leb128.encode_last hlast]
      congr 3
      apply BitVec.eq_of_toNat_eq
      rw [BitVec.toNat_setWidth, hremaining, BitVec.toNat_ofNat]
    · have hnext : value.toNat / 128 ^ index / 128 = value.toNat / 128 ^ (index + 1) := by
        rw [Nat.div_div_eq_div_mul, Nat.pow_succ]
      rw [if_neg hlast, Leb128.encode_more hlast, hnext]
      rw [Nat.pow_succ] at h
      cases turns with
      | zero => omega
      | succ turns =>
        rw [ih (index + 1) _ (by rw [← hnext]; omega) (Nat.succ_pos turns), List.append_assoc]
        rfl

/-- **The bytes written are the shortest base-128 form**, and writing never fails. -/
theorem encode_eq (v : VarInt) : v.encode = .ok (Leb128.encode v.value.toNat) := by
  have hlt := v.value.isLt
  have := encodeLoop_eq v.value 5 0 [] (by simp; omega) (by omega)
  rw [Nat.pow_zero, Nat.div_one, List.nil_append] at this
  exact this

/-- The declared size is the number of bytes written. -/
theorem size_eq (v : VarInt) : v.size = (Leb128.encode v.value.toNat).length :=
  (Leb128.encode_length _).symm

theorem encode_length_le (v : VarInt) : (Leb128.encode v.value.toNat).length ≤ 5 :=
  Leb128.encode_length_le 4 _ (Nat.lt_of_lt_of_le v.value.isLt (by decide))

/-- **Reading back what was written gives the number** and leaves what follows. -/
theorem fromReader_encode {β : Type} (rem : Bytes → β) (v : VarInt) (rest : Bytes) :
    (fromReader : Program ReadError β VarInt).eval rem (Leb128.encode v.value.toNat ++ rest) =
      (.ok v, rest) := by
  rw [fromReader_eval rem (Leb128.decode_encode 5 _ rest v.encode_length_le)]
  simp

end VarInt

end Protocraft
