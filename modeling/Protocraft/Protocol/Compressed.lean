import Protocraft.Defaults.Payload
import Protocraft.Protocol.Limits

/-! The frame of a compressed packet carries what the compressor wrote.

The compressor keeps a record of its calls, which a packet starts anew; behind the packet it
holds the calls made for it (`compressed_payload_complete`). -/
namespace Protocraft
open Protocraft.Stream

section Compressed
variable {κ ω : Type} [Deflate κ] [Write ω] {pending : κ → Bytes} {received : ω → Bytes}

omit [Deflate κ] in
/-- Nothing that is written to the writer gets to its compressor. -/
theorem DefaultWriter.keeps_compressor (k : κ) :
    Emits (fun (w : DefaultWriter κ ω) (_ : Bytes) => w.compressionState = k) := by
  refine Emits.of_write ?_ ?_
  · intro w w' bytes data n hw hwrite
    obtain rfl : _ = w' := congrArg Prod.snd hwrite
    obtain ⟨k', b | e⟩ := w <;> exact hw
  · intro w w' bytes hw hflush
    obtain rfl : _ = w' := congrArg Prod.snd hflush
    obtain ⟨k', b | e⟩ := w <;> exact hw

omit [Write ω] in
theorem preCompress_outputs (hbounded : Deflate.Bounded κ) (hdrains : Deflate.Drains pending)
    {turns n : Nat} {id : VarInt} {packet : Packet} {payload : Bytes}
    {w w₁ : DefaultWriter (Recorded κ) ω}
    (hok : preCompress turns id packet w = (.ok (n, payload), w₁)) :
    n = payload.length ∧ payload = outputs w₁.compressionState.calls ∧
      pending w₁.compressionState.state = [] ∧ w₁.writer = w.writer := by
  obtain ⟨p, p', hwrite, hflush, hresult, rfl⟩ := preCompress_ok hok
  have hall : CachedPreCompressionWriter.compress turns (packet.behind id).writes
      (CachedPreCompressionWriter.start w.compressionState.state) = (.ok (), p') :=
    (bind_ok (Packet.each_of_ok hwrite).2).trans hflush
  obtain ⟨hfinish, hdone⟩ := CachedPreCompressionWriter.finish_outputs hbounded hdrains hall
  cases hresult
  exact ⟨rfl, congrArg Prod.snd hfinish, hdone, rfl⟩

/-- **The payload is what the compressor wrote, and nothing of it is missing.** If the writes of
a packet and its flush succeed, `finish` returns the outputs of all calls, in order, and their
length, and nothing is left to put out; and the frame of a packet that is compressed and written
has them behind its two lengths. -/
theorem compressed_payload_complete (hbounded : Deflate.Bounded κ) (hdrains : Deflate.Drains pending) :
    (∀ (turns : Nat) (k : κ) (writes : List Bytes) (w : CachedPreCompressionWriter (Recorded κ)),
      CachedPreCompressionWriter.compress turns writes (CachedPreCompressionWriter.start k) =
      (.ok (), w) →
      w.finish = ((outputs w.state.calls).length, outputs w.state.calls) ∧ pending w.state.state = []) ∧
    ∀ {ω : Type} [Write ω] {received : ω → Bytes}, Lawful received →
      ∀ (turns threshold : Nat) (id : I32) (packet : Packet) (w w' : DefaultWriter (Recorded κ) ω),
      threshold ≤ (VarInt.mk id).size + packet.size →
      writePacketInternal turns (some threshold) id packet w = (.ok (), w') →
      let payload := outputs w'.compressionState.calls
      let body := Leb128.encode ((VarInt.mk id).size + packet.size) ++ payload
      received w'.sink = received w.sink ++ w.encoded (w.buffer ++ (Leb128.encode body.length ++ body)) ∧
        pending w'.compressionState.state = [] := by
  refine ⟨fun turns k writes w hok => CachedPreCompressionWriter.finish_outputs hbounded hdrains hok, ?_⟩
  intro ω _ received hlawful turns threshold id packet w w' habove hok
  have hmax : maxPacketSize < 2 ^ 32 := by decide
  have hint : i32Max < 2 ^ 32 := by decide
  have hbody : plainBody (some threshold) ⟨id⟩ packet = none := if_neg (Nat.not_lt.mpr habove)
  obtain ⟨_, w₂, hframe, hflush⟩ := ok_of_bind hok
  obtain ⟨body, hsome, -⟩ | ⟨-, n, payload, w₁, hpre, hcontent, hwithin, hwrite⟩ := writeFrame_ok hframe
  · cases hbody.symm.trans hsome
  · obtain ⟨rfl, rfl, hdone, hwriter⟩ := preCompress_outputs hbounded hdrains hpre
    have hemitted : Emits (w.emptied.Emitted received) := DefaultWriter.emits hlawful
    have hemits := hemitted.and (DefaultWriter.keeps_compressor w₁.compressionState)
    have hw₁ : w.emptied.Emitted received w₁ w.buffer ∧ w₁.compressionState = w₁.compressionState := by
      refine ⟨?_, rfl⟩
      have hbuffered :
          w.emptied.Emitted received {w with compressionState := w₁.compressionState} w.buffer :=
        DefaultWriter.Emitted.buffered w _
      rw [DefaultWriter.Emitted] at hbuffered ⊢
      rwa [hwriter]
    have hsent := lengths_emits hemits (writeCompressed_emits hemits) hw₁ hwrite
    have hflushed := ok_of_mapError hflush
    have hsink := hsent.1.flushed hlawful (ok_of_mapError hflushed)
    have hkept := (hemits.flush hsent hflushed).2
    have htotal : (VarInt.ofNat ((VarInt.mk id).size + packet.size)).value.toNat =
        (VarInt.mk id).size + packet.size := VarInt.ofNat_toNat (by omega)
    rw [w.emptied_sink, w.emptied_encoded, VarInt.size_eq, htotal, ← List.length_append] at hsink
    rw [VarInt.size_eq, htotal, ← List.length_append] at hwithin
    rw [VarInt.ofNat_toNat (by omega)] at hsink
    rw [hkept]
    exact ⟨hsink, hdone⟩

/-- Two writes, and a packet of two bytes, compressed by storing them. -/
theorem compressed_payload_complete_stored :
    let k : Stored.Deflater := ⟨false, false, [], Stored.adlerStart, [], Stored.start⟩
    let w : DefaultWriter (Recorded Stored.Deflater) Collected := .new ⟨k, []⟩ ⟨[]⟩ 4
    let packet : Packet := ⟨2, [[1], [2]], none⟩
    ∃ c w', CachedPreCompressionWriter.compress 3 [[1], [2]] (CachedPreCompressionWriter.start k) =
      (.ok (), c) ∧
      c.finish = ((outputs c.state.calls).length, outputs c.state.calls) ∧
      writePacketInternal 3 (some 0) 5 packet w = (.ok (), w') ∧
      let payload := outputs w'.compressionState.calls
      let body := Leb128.encode ((VarInt.mk 5).size + packet.size) ++ payload
      w'.sink.bytes = [] ++ ([] ++ (Leb128.encode body.length ++ body)) := by
  intro k w packet
  have hcompress :
      (CachedPreCompressionWriter.compress 3 [[1], [2]] (CachedPreCompressionWriter.start k)).1 =
      .ok () := by decide +kernel
  have hok : (writePacketInternal 3 (some 0) 5 packet w).1 = .ok () := by decide +kernel
  have hencoded : ∀ bytes, w.encoded bytes = bytes := Mealy.identity_output _
  have hbuffer : w.buffer = [] := rfl
  have hsink : w.sink.bytes = [] := rfl
  clear_value k w packet
  obtain ⟨hpayload, hframe⟩ := compressed_payload_complete Stored.Deflater.bounded Stored.Deflater.drains
  obtain ⟨hsent, -⟩ := hframe Collected.lawful 3 0 5 packet w _ (Nat.zero_le _) (replied hok)
  rw [hencoded, hbuffer, hsink] at hsent
  exact ⟨_, _, replied hcompress, (hpayload 3 k [[1], [2]] _ (replied hcompress)).1, replied hok, hsent⟩

end Compressed

end Protocraft
