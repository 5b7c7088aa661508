import Protocraft.Protocol.Frame

/-! How long a frame may be.

Nothing of a packet that is too long is written (`writeFrame_refused`), any other fails only with
the writer (`writeFrame_throws`), and its length takes three bytes at most
(`writePacketInternal_limits`). -/
namespace Protocraft
open Protocraft.Stream

section Writer
variable {ω : Type} [Writer ω]

theorem VarInt.toWriter_throws (turns : Nat) (v : VarInt) :
    Throws FromWriter (v.toWriter turns : Action (Stop WriteError) ω Unit) := by
  rw [VarInt.toWriter_eq]
  exact throws_mapError fromWriter_map _

theorem Packet.toWriter_throws (turns : Nat) {packet : Packet} (hwritten : packet.failure = none) :
    Throws FromWriter (packet.toWriter turns : Action (Stop WriteError) ω Unit) := by
  intro w w' e h
  by_contra he
  obtain ⟨failure, hfailure, -, -⟩ := packet.toWriter_failed h he
  rw [hwritten] at hfailure
  cases hfailure

end Writer

section Write
variable {ω π χ : Type} [CompressableWriter ω π χ] [Writer ω] [CompressionWriter χ]

omit [Writer ω] in
theorem writeCompressed_throws (turns : Nat) (payload : Bytes) (id : VarInt) {packet : Packet}
    (hwritten : packet.failure = none) :
    Throws FromWriter (writeCompressed turns payload id packet : Action (Stop WriteError) ω Unit) := by
  have hpayload : Throws FromWriter (mapError (Stop.map .streamError)
      (CompressionWriter.initializeWith turns payload : Action _ χ _)) :=
      throws_mapError fromWriter_map _
  exact (hpayload.bind fun _ => (VarInt.toWriter_throws turns id).bind fun _ =>
    Packet.toWriter_throws turns hwritten).borrowing

/-- Behind both its lengths it fails only with the writer too. -/
theorem lengths_throws (turns : Nat) (v v' : VarInt) (payload : Bytes) (id : VarInt) {packet : Packet}
    (hwritten : packet.failure = none) :
    Throws FromWriter (writeLengths turns v v' payload id packet : Action (Stop WriteError) ω Unit) :=
  (VarInt.toWriter_throws turns v).bind fun _ => (VarInt.toWriter_throws turns v').bind fun _ =>
    writeCompressed_throws turns payload id hwritten

end Write

section Limits
variable {κ ω : Type} [Deflate κ] [Write ω] {received : ω → Bytes}

/-- A number within the limit is an `i32`. -/
theorem VarInt.ofNat_toInt {n : Nat} (h : n ≤ i32Max) : (ofNat n).value.toInt = n := by
  simp only [i32Max] at h
  rw [ofNat, BitVec.toInt_ofNat', Int.bmod_eq_of_le] <;> omega

def OverSized (e : Stop WriteError) : Prop :=
  ∃ name maximum was, e = .error (.overSized name maximum was)

/-- A packet that is too long is refused, and nothing of it is in the writer. -/
theorem writeFrame_refused {turns : Nat} {threshold : Option Nat} {id : I32} {packet : Packet}
    {payload : Bytes} (hsize : packet.size = packet.bytes.length) {w w' : DefaultWriter κ ω}
    {reply : Except (Stop WriteError) Unit}
    (hcompress : ∀ t, threshold = some t → t ≤ (content id packet).length →
      ∃ w₁, preCompress turns ⟨id⟩ packet w = (.ok (payload.length, payload), w₁))
    (hlong : TooLong threshold (content id packet) payload)
    (hrun : writeFrame turns threshold ⟨id⟩ packet w = (reply, w')) :
    (∃ e, reply = .error e ∧ OverSized e) ∧ w'.writer = w.writer := by
  have hint : i32Max < 2 ^ 32 := by decide
  cases hbody : plainBody threshold ⟨id⟩ packet with
  | some body =>
    obtain ⟨name, hwrite⟩ := @writeFrame_plain (DefaultWriter κ ω) _ _ _ _ _ _ turns _ _ _ _ hbody
    rw [hwrite, if_pos ((tooLong_plain hsize hbody payload).mp hlong)] at hrun
    cases hrun
    exact ⟨⟨_, rfl, _, _, _, rfl⟩, rfl⟩
  | none =>
    obtain ⟨-, t, ht, habove⟩ := plainBody_none hsize hbody payload
    obtain ⟨w₁, hpre⟩ := hcompress t ht habove
    obtain ⟨k, rfl⟩ : ∃ k, w₁ = {w with compressionState := k} := ⟨_, (congrArg Prod.snd hpre).symm⟩
    rw [writeFrame_compressed hbody, hpre] at hrun
    dsimp only at hrun
    rw [length_content id hsize] at hrun
    by_cases hcontent : i32Max < (content id packet).length
    · rw [if_pos hcontent] at hrun
      cases hrun
      exact ⟨⟨_, rfl, _, _, _, rfl⟩, rfl⟩
    · have hframe := ((tooLong_compressed hsize hbody payload).mp hlong).resolve_left hcontent
      rw [if_neg hcontent, VarInt.size_eq, VarInt.ofNat_toNat (by omega), ← List.length_append,
        if_pos hframe] at hrun
      cases hrun
      exact ⟨⟨_, rfl, _, _, _, rfl⟩, rfl⟩

/-- One that is not too long fails only with the writer. -/
theorem writeFrame_throws {turns : Nat} {threshold : Option Nat} {id : I32} {packet : Packet}
    {payload : Bytes}
    (hsize : packet.size = packet.bytes.length) (hwritten : packet.failure = none)
    {w w' : DefaultWriter κ ω} {e : Stop WriteError}
    (hcompress : ∀ t, threshold = some t → t ≤ (content id packet).length →
      ∃ w₁, preCompress turns ⟨id⟩ packet w = (.ok (payload.length, payload), w₁))
    (hfits : ¬ TooLong threshold (content id packet) payload)
    (hrun : writeFrame turns threshold ⟨id⟩ packet w = (.error e, w')) : FromWriter e := by
  have hint : i32Max < 2 ^ 32 := by decide
  cases hbody : plainBody threshold ⟨id⟩ packet with
  | some body =>
    obtain ⟨name, hwrite⟩ := @writeFrame_plain (DefaultWriter κ ω) _ _ _ _ _ _ turns _ _ _ _ hbody
    rw [hwrite, if_neg fun h => hfits ((tooLong_plain hsize hbody payload).mpr h)] at hrun
    have hnone : (body.behind (.ofNat body.size)).failure = none :=
      (plainBody_some hsize hbody payload).1.trans hwritten
    exact Packet.toWriter_throws turns hnone _ _ _ hrun
  | none =>
    obtain ⟨-, t, ht, habove⟩ := plainBody_none hsize hbody payload
    obtain ⟨w₁, hpre⟩ := hcompress t ht habove
    obtain ⟨hcontent, hframe⟩ :=
      not_or.mp fun h => hfits ((tooLong_compressed hsize hbody payload).mpr h)
    rw [writeFrame_compressed hbody, hpre] at hrun
    dsimp only at hrun
    rw [length_content id hsize, if_neg hcontent, VarInt.size_eq, VarInt.ofNat_toNat (by omega),
      ← List.length_append, if_neg hframe] at hrun
    exact lengths_throws turns _ _ payload ⟨id⟩ hwritten _ _ _ hrun

/-- **The limits of the writer.** A packet is refused as too long just when its frame, or what
is compressed in it, is, and then nothing of it is in the writer; when it is written, its
length takes three bytes at most, no number in front of it is truncated, and the length is that
of what follows it. -/
theorem writePacketInternal_limits (hlawful : Lawful received) {turns : Nat} {threshold : Option Nat}
    {id : I32} {packet : Packet} {payload : Bytes} (hsize : packet.size = packet.bytes.length)
    (hwritten : packet.failure = none) {w w' : DefaultWriter κ ω} {reply : Except (Stop WriteError) Unit}
    (hcompress : ∀ t, threshold = some t → t ≤ (content id packet).length →
      ∃ n w₁, preCompress turns ⟨id⟩ packet w = (.ok (n, payload), w₁))
    (hrun : writePacketInternal turns threshold id packet w = (reply, w')) :
    let body := frameBody threshold (content id packet) payload
    ((∃ e, reply = .error e ∧ OverSized e) ↔ TooLong threshold (content id packet) payload) ∧
    ((∃ e, reply = .error e ∧ OverSized e) → w'.writer = w.writer) ∧
    (reply = .ok () → (Leb128.encode body.length).length ≤ 3 ∧
      (VarInt.ofNat body.length).value.toInt = body.length ∧
      (∀ t, threshold = some t → t ≤ (content id packet).length →
        (VarInt.ofNat (content id packet).length).value.toInt = (content id packet).length) ∧
      received w'.sink =
        received w.sink ++ w.encoded (w.buffer ++ (Leb128.encode body.length ++ body))) := by
  have hmax : maxPacketSize < 128 ^ 3 := by decide
  have hint : maxPacketSize ≤ i32Max := by decide
  dsimp only
  rcases hframe : writeFrame turns threshold ⟨id⟩ packet w with ⟨result, w₁⟩
  have hpayload : ∀ t, threshold = some t → t ≤ (content id packet).length →
      ∃ w₁, preCompress turns ⟨id⟩ packet w = (.ok (payload.length, payload), w₁) := by
    intro t ht habove
    obtain ⟨n, w₁, hpre⟩ := hcompress t ht habove
    exact ⟨w₁, preCompress_length hpre ▸ hpre⟩
  have hnot : ∀ {e}, FromWriter e → ¬ OverSized e := by
    intro e hfrom hover
    obtain ⟨name, maximum, was, rfl⟩ := hover
    exact hfrom
  by_cases htoo : TooLong threshold (content id packet) payload
  · obtain ⟨⟨e, rfl, hover⟩, hleft⟩ := writeFrame_refused hsize hpayload htoo hframe
    have hfailed : writePacketInternal turns threshold id packet w = (.error e, w₁) := bind_error hframe
    rw [hfailed] at hrun
    cases hrun
    exact ⟨iff_of_true ⟨e, rfl, hover⟩ htoo, fun _ => hleft, fun h => by cases h⟩
  · have hflush : Throws FromWriter (mapError (Stop.map .streamError) (Writer.flush turns) :
        Action (Stop WriteError) (DefaultWriter κ ω) Unit) := throws_mapError fromWriter_map _
    have hthrows : ∀ e, reply = .error e → FromWriter e := by
      intro e he
      rw [writePacketInternal, bind_apply, hframe] at hrun
      cases result with
      | error e₁ =>
        cases hrun
        cases he
        exact writeFrame_throws hsize hwritten hpayload htoo hframe
      | ok _ => exact hflush _ _ _ (hrun.trans (by rw [he]))
    have hnone : ¬ ∃ e, reply = .error e ∧ OverSized e := fun ⟨e, he, hover⟩ => hnot (hthrows e he) hover
    refine ⟨iff_of_false hnone htoo, fun h => absurd h hnone, fun hok => ?_⟩
    subst hok
    obtain ⟨_, w₂, hframe', hflushed⟩ := ok_of_bind hrun
    obtain ⟨rfl, rfl⟩ := Prod.mk.inj (hframe.symm.trans hframe')
    have hin := not_or.mp htoo
    have hlength := Nat.not_lt.mp hin.1
    have hemitted := (writeFrame_sent hsize hpayload hframe).2 (DefaultWriter.emits hlawful)
      (DefaultWriter.Emitted.buffered w)
    have hdone := hemitted.flushed hlawful (ok_of_mapError (ok_of_mapError hflushed))
    rw [w.emptied_sink, w.emptied_encoded] at hdone
    refine ⟨Leb128.encode_length_le 2 _ (by omega), VarInt.ofNat_toInt (by omega),
      fun t ht habove => ?_, hdone⟩
    refine VarInt.ofNat_toInt (Nat.not_lt.mp fun h => hin.2 ⟨t, ht, habove, h⟩)

/-- A packet compressed by storing it, behind two bytes already in the buffer. -/
theorem writePacketInternal_limits_stored :
    let packet : Packet := ⟨2, [[1], [2]], none⟩
    let compressor : Stored.Deflater := ⟨false, false, [], Stored.adlerStart, [], Stored.start⟩
    let w : DefaultWriter Stored.Deflater Collected := ⟨compressor, .standard ⟨(), ⟨[9]⟩, [8, 8], 4⟩⟩
    ∃ payload, (preCompress 3 ⟨5⟩ packet w).1 = .ok (payload.length, payload) ∧
      let body := frameBody (some 0) (content 5 packet) payload
      (Leb128.encode body.length).length ≤ 3 ∧ (VarInt.ofNat body.length).value.toInt = body.length ∧
      (writePacketInternal 3 (some 0) 5 packet w).2.sink.bytes =
        [9] ++ ([8, 8] ++ (Leb128.encode body.length ++ body)) := by
  intro packet compressor w
  have hok : (writePacketInternal 3 (some 0) 5 packet w).1 = .ok () := by decide +kernel
  obtain ⟨payload, hpre⟩ : ∃ payload, (preCompress 3 ⟨5⟩ packet w).1 = .ok (payload.length, payload) :=
    ⟨[120, 1, 1, 3, 0, 252, 255, 5, 1, 2, 0, 22, 0, 9], by decide +kernel⟩
  have hencoded : ∀ bytes, w.encoded bytes = bytes := Mealy.identity_output _
  have hbuffer : w.buffer = [8, 8] := rfl
  have hsink : w.sink.bytes = [9] := rfl
  have hsize : packet.size = packet.bytes.length := rfl
  have hwritten : packet.failure = none := rfl
  clear_value packet w
  obtain ⟨-, -, hlimits⟩ := @writePacketInternal_limits _ _ _ _ _ Collected.lawful 3 (some 0) 5
    packet payload hsize hwritten w _ _ (fun _ _ _ => ⟨_, _, replied hpre⟩) (replied hok)
  obtain ⟨hlength, hint, -, hsent⟩ := hlimits rfl
  rw [hencoded, hbuffer, hsink] at hsent
  exact ⟨payload, hpre, hlength, hint, hsent⟩

end Limits

end Protocraft
