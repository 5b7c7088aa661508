import Protocraft.Protocol.Write

/-! `VarInt` both ways.

Whatever stands in the stream, reading takes the bytes up to the first one without the
top bit, and no more than five (`VarInt.Outcome`). Of the forms that read back as one
number the one written is the shortest, and its length is the size declared for it. -/
namespace Protocraft
open Protocraft.Stream
open Leb128 (Continues)

namespace VarInt

/-- What reading a number comes to, and the bytes it leaves. -/
inductive Outcome : Bytes → Except ReadError VarInt → Bytes → Prop
  | read {used : Bytes} {last : Byte} {rest : Bytes} (hused : ∀ b ∈ used, Continues b)
      (hlast : ¬ Continues last) (hwithin : used.length < 5) :
      Outcome (used ++ last :: rest) (.ok ⟨BitVec.ofNat 32 (Leb128.value (used ++ [last]))⟩) rest
  | tooLong {used rest : Bytes} (hused : ∀ b ∈ used, Continues b) (hlength : used.length = 5) :
      Outcome (used ++ rest) (.error (.overSized "varint" 5 6)) rest
  | ended {c : Bytes} (hused : ∀ b ∈ c, Continues b) (hshort : c.length < 5) :
      Outcome c (.error (.streamError failedToFill)) []

theorem fromReader_outcome {β : Type} (rem : Bytes → β) (c : Bytes) :
    Outcome c ((fromReader : Program ReadError β VarInt).eval rem c).1
      ((fromReader : Program ReadError β VarInt).eval rem c).2 := by
  by_cases hall : ∀ b ∈ c.take 5, Continues b
  · rw [fromReader_eval_none rem (Leb128.decode_eq_none hall)]
    by_cases hlong : 5 ≤ c.length
    · rw [if_pos hlong]
      have hc : Outcome (c.take 5 ++ c.drop 5) (.error (.overSized "varint" 5 6)) (c.drop 5) :=
        .tooLong hall (List.length_take_of_le hlong)
      rwa [List.take_append_drop] at hc
    · rw [if_neg hlong]
      rw [List.take_of_length_le (by omega)] at hall
      exact .ended hall (by omega)
  · obtain ⟨used, last, rest, rfl, hused, hlast, hwithin⟩ := Leb128.exists_last hall
    rw [fromReader_eval rem (Leb128.decode_groups hused hlast hwithin rest)]
    exact .read hused hlast hwithin

/-- A number that reads back from bytes has its shortest form no longer than these. -/
theorem shortest {β : Type} {rem : Bytes → β} {v : VarInt} {c : Bytes}
    (h : (fromReader : Program ReadError β VarInt).eval rem c = (.ok v, [])) : v.size ≤ c.length := by
  rw [size_eq]
  cases hc : Leb128.decode 5 c with
  | none =>
    rw [fromReader_eval_none rem hc] at h
    split at h <;> cases h
  | some read =>
    obtain ⟨n, rest⟩ := read
    rw [fromReader_eval rem hc] at h
    obtain ⟨hv, rfl⟩ := Prod.mk.inj h
    cases hv
    exact Leb128.encode_shortest hc (by rw [BitVec.toNat_ofNat]; exact Nat.mod_le _ _)

/-- The numbers that reading shifts by. -/
theorem fromReader_offsets {β : Type} : ∃ offsets, (fromReader : Program ReadError β VarInt) = (do
      let value ← readSegments (.overSized "varint" 5 6) offsets 0
      return ⟨value⟩) ∧ ∀ offset ∈ offsets, offset < 32 :=
  ⟨_, rfl, by decide⟩

/-- **`VarInt` is written in its shortest form and reads back**, and whatever bytes there are,
reading takes no more than the five that it may. -/
theorem codec {ρ : Type} [Read ρ] {R : ρ → Bytes → Prop} (h : Delivers R Never) :
    (∀ v : VarInt, ∃ used last, v.encode = .ok (used ++ [last]) ∧
      (∀ {ω : Type} [Writer ω] (turns : Nat), (v.toWriter turns : Action (Stop WriteError) ω Unit) =
        mapError (Stop.map .streamError) (Writer.write turns (used ++ [last]))) ∧
      (used ++ [last]).length = v.size ∧ v.size ≤ 5 ∧ (∀ b ∈ used, Continues b) ∧ ¬ Continues last ∧
      (∀ c, (fromReader : Program ReadError Unit VarInt).onBytes c = (.ok v, []) → v.size ≤ c.length) ∧
      ∀ {r rest}, R r (used ++ [last] ++ rest) → ∃ r',
        (fromReader.onReader r : Except ReadError VarInt × ρ) = (.ok v, r') ∧ R r' rest) ∧
    (∀ {r c}, R r c → ∃ rest, Outcome c (fromReader.onReader r).1 rest ∧
      R ((fromReader.onReader r : Except ReadError VarInt × ρ)).2 rest) ∧
    ∃ offsets, (fromReader : Program ReadError Unit VarInt) = (do
      let value ← readSegments (.overSized "varint" 5 6) offsets 0
      return ⟨value⟩) ∧ ∀ offset ∈ offsets, offset < 32 := by
  refine ⟨fun v => ?_, fun {r c} hr => ?_, fromReader_offsets⟩
  · obtain ⟨used, last, hencode, hused, hlast⟩ := Leb128.encode_groups v.value.toNat
    have hlength : (used ++ [last]).length = v.size := by rw [← hencode, size_eq]
    refine ⟨used, last, by rw [encode_eq, hencode], fun {ω} _ turns => by rw [toWriter_eq, hencode],
      hlength, ?_, hused, hlast, fun c hc => shortest hc, fun {r rest} hr => ?_⟩
    · rw [size_eq]
      exact v.encode_length_le
    · rw [← hencode] at hr
      exact Program.onReader_eq h hr (fromReader_encode _ v rest)
  · obtain ⟨r', hrun, hr'⟩ := Program.onReader_eq h hr rfl
    rw [hrun]
    exact ⟨_, fromReader_outcome _ c, hr'⟩

/-- 300 in front of another byte. -/
theorem codec_three_hundred : ∃ r', (fromReader.onReader (⟨[0xAC, 0x02, 7]⟩ : Slice) :
    Except ReadError VarInt × Slice) = (.ok ⟨300⟩, r') ∧ r'.Holds [7] := by
  obtain ⟨used, last, hencode, -, -, -, -, -, -, hread⟩ := (codec Slice.delivers).1 ⟨300⟩
  have hbytes : (⟨300⟩ : VarInt).encode = .ok [0xAC, 0x02] := by decide
  have hwritten : used ++ [last] = [0xAC, 0x02] := Except.ok.inj (hencode.symm.trans hbytes)
  rw [hwritten] at hread
  exact hread rfl

end VarInt

end Protocraft
