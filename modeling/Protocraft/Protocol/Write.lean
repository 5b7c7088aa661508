import Protocraft.Defaults.Compression
import Protocraft.Primatives.VarInt
import Protocraft.Stream.Stored

/-! Writing a packet.

A frame is a length and that many bytes: the packet's id and payload, with compression
on behind a zero when they are few, or compressed behind their length. -/
namespace Protocraft
open Protocraft.Stream

def maxPacketSize : Nat := 0x1FFFFF

def i32Max : Nat := 2147483647

namespace VarInt
variable {ω : Type} [Writer ω]

def toWriter (turns : Nat) (v : VarInt) : Action (Stop WriteError) ω Unit :=
  match v.encode with
  | .ok bytes => mapError (Stop.map .streamError) (Writer.write turns bytes)
  | .error e => throw (.error e)

def ofNat (n : Nat) : VarInt := ⟨BitVec.ofNat 32 n⟩

theorem toWriter_steady (h : Writer.Steady ω) (v : VarInt) :
    Steady fun turns => (v.toWriter turns : Action (Stop WriteError) ω Unit) := by
  unfold toWriter
  cases v.encode with
  | ok bytes => exact (h.write bytes).mapError _
  | error e => exact Steady.const _

theorem toWriter_eq (turns : Nat) (v : VarInt) : (v.toWriter turns : Action (Stop WriteError) ω Unit) =
    mapError (Stop.map .streamError) (Writer.write turns (Leb128.encode v.value.toNat)) := by
  rw [toWriter, encode_eq]

end VarInt

section Write
variable {ω π χ : Type} [CompressableWriter ω π χ]

/-- `with_pre_compression!`: the packet, compressed. -/
def preCompress [PreCompressionWriter π] (turns : Nat) (id : VarInt) (packet : Packet) :
    Action (Stop WriteError) ω (Nat × Bytes) :=
  borrowing CompressableWriter.preCompressionWriter CompressableWriter.preCompressed (do
    id.toWriter turns
    packet.toWriter turns
    mapError (Stop.map .streamError) (Writer.flush turns)
    fun w : π => (.ok (PreCompressionWriter.finish w), w))

theorem preCompress_steady [PreCompressionWriter π] (h : Writer.Steady π) (id : VarInt)
    (packet : Packet) :
    Steady fun turns => (preCompress turns id packet : Action (Stop WriteError) ω (Nat × Bytes)) := by
  have hfinish : Steady fun _ => (fun w : π => (.ok (PreCompressionWriter.finish w), w) :
      Action (Stop WriteError) π (Nat × Bytes)) := Steady.const _
  exact ((id.toWriter_steady h).bind fun _ => (h.packet packet).bind fun _ =>
    (h.flush.mapError _).bind fun _ => hfinish).borrowing

/-- `with_compression!`: the payload, and then what the writer makes of the packet. -/
def writeCompressed [CompressionWriter χ] (turns : Nat) (payload : Bytes) (id : VarInt)
    (packet : Packet) : Action (Stop WriteError) ω Unit :=
  borrowing CompressableWriter.withCompression CompressableWriter.compressed (do
    mapError (Stop.map .streamError) (CompressionWriter.initializeWith turns payload : Action _ χ _)
    id.toWriter turns
    packet.toWriter turns)

variable [Writer ω] [PreCompressionWriter π] [CompressionWriter χ]

/-- The three kinds of frames. -/
def writeFrame (turns : Nat) (threshold : Option Nat) (id : VarInt) (packet : Packet) :
    Action (Stop WriteError) ω Unit :=
  let totalSize := id.size + packet.size
  match threshold with
  | some threshold =>
    if totalSize < threshold then
      let totalSize := totalSize + 1
      if totalSize > maxPacketSize then
        throw (.error (.overSized "compression_below_size" maxPacketSize totalSize))
      else do
        (VarInt.ofNat totalSize).toWriter turns
        (VarInt.ofNat 0).toWriter turns
        id.toWriter turns
        packet.toWriter turns
    else do
      let (compressedSize, payload) ← preCompress turns id packet
      if totalSize > i32Max then
        throw (.error (.overSized "uncompressed_varint" i32Max totalSize))
      else
        let uncompressedVarint := VarInt.ofNat totalSize
        let totalSize := uncompressedVarint.size + compressedSize
        if totalSize > maxPacketSize then
          throw (.error (.overSized "no_compression_size" maxPacketSize totalSize))
        else
          (VarInt.ofNat totalSize).toWriter turns
          uncompressedVarint.toWriter turns
          writeCompressed turns payload id packet
  | none =>
    if totalSize > maxPacketSize then
      throw (.error (.overSized "no_compression_size" maxPacketSize totalSize))
    else do
      (VarInt.ofNat totalSize).toWriter turns
      id.toWriter turns
      packet.toWriter turns

def writePacketInternal (turns : Nat) (threshold : Option Nat) (id : I32) (packet : Packet) :
    Action (Stop WriteError) ω Unit := do
  writeFrame turns threshold ⟨id⟩ packet
  mapError (Stop.map .streamError) (Writer.flush turns)

/-- A packet to be written, under the threshold set by then. -/
structure Outgoing where
  threshold : Option Nat
  id : I32
  packet : Packet

/-- One packet after the other, as long as they succeed. -/
def writePackets (turns : Nat) : List Outgoing → Action (Stop WriteError) ω Unit
  | [] => pure ()
  | p :: packets => do
    writePacketInternal turns p.threshold p.id p.packet
    writePackets turns packets

end Write

/-! ### The asynchronous payload -/

/-- What a packet comes to behind its length fields. -/
def content (id : I32) (packet : Packet) : Bytes := Leb128.encode id.toNat ++ packet.bytes

section AsyncPayload
variable {κ ω : Type} [Deflate κ] {Sent : κ → Bytes → Bytes → Prop} {pending : κ → Bytes}
  {inflated : Bytes → Bytes}

/-- **The asynchronous payload is what the compressor has let go of.** Compressing a packet
returns, and the payload inflates to a front of it. It inflates to all of it, at the announced
length, just when the packet declares its true size and the scratch buffer has not cut the last
call short: with more room that call would have put out no more data. It has not where the call
left room. -/
theorem async_payload_complete_iff (h : SyncFlushing Sent pending inflated)
    (w : TokioWriter (Recorded κ) ω) (id : I32) (packet : Packet) (hwritten : packet.failure = none) :
    ∃ turns payload w' earlier call,
      (∀ more, preCompress (turns + more) ⟨id⟩ packet w = (.ok (payload.length, payload), w')) ∧
      w'.state.calls = earlier ++ [call] ∧ call.room = scratch ∧
      payload = outputs (earlier ++ [call]) ∧ inflated payload <+: content id packet ∧
      (inflated payload = content id packet ∧
          (inflated payload).length = (VarInt.mk id).size + packet.size ↔
        packet.size = packet.bytes.length ∧ call.Unhindered inflated (outputs earlier)) ∧
      (call.result.written.length < call.room → call.Unhindered inflated (outputs earlier)) := by
  let start : AsyncCachedPreCompressionWriter (Recorded κ) ω := ⟨Deflate.reset w.state, [], w.writer⟩
  obtain ⟨turns, v, heach, hsends, earlier, call, hcalls, hroom, hcloses⟩ :=
    AsyncCachedPreCompressionWriter.writeEach_sent h (w := start) ⟨h.reset w.state.state, rfl⟩
      (Leb128.encode id.toNat) packet.writes
  rw [List.nil_append, List.flatten_cons] at hcloses
  have hpayload : v.buffer = outputs (earlier ++ [call]) := by rw [← hcalls, hsends.recorded]
  have hlast : outputs (earlier ++ [call]) = outputs earlier ++ call.result.written := outputs_append _ _
  have hgiven := hcloses.given_room inflated
  have hwhole := hcloses.whole_iff h
  rw [← hlast, ← hpayload] at hgiven hwhole
  refine ⟨turns, v.buffer, ⟨v.state, v.cachedWriter⟩, earlier, call, fun more => ?_, hcalls,
    hroom, hpayload, ?_, ?_, fun hleft => ?_⟩
  · obtain ⟨_, v₁, hid, hwrites⟩ := ok_of_bind (heach more)
    have hid' : (VarInt.mk id).toWriter (turns + more) start = (.ok (), v₁) := by
      rw [VarInt.toWriter_eq]
      exact mapError_ok hid
    rw [preCompress, borrowing_apply,
      show CompressableWriter.preCompressionWriter w = start from rfl, bind_ok hid',
      bind_ok (Packet.toWriter_ok hwritten hwrites)]
    rfl
  · rw [← hgiven]
    exact (hcloses.given_prefix h hcloses.room).1
  · have hlength : (content id packet).length = (VarInt.mk id).size + packet.bytes.length := by
      rw [content, List.length_append, VarInt.size_eq]
    constructor
    · intro h
      obtain ⟨hall, hannounced⟩ := h
      rw [hall] at hannounced
      exact ⟨by omega, hwhole.mp hall⟩
    · intro h
      obtain ⟨hsize, hunhindered⟩ := h
      have hall := hwhole.mpr hunhindered
      exact ⟨hall, by rw [hall, hsize]; exact hlength⟩
  · rw [← hwhole, hpayload, hlast]
    exact hcloses.whole_of_room h hleft

/-- A packet of one byte: the last call has left room, and the payload is whole. -/
theorem async_payload_complete_small :
    let start : Stored.Deflater := ⟨false, false, [], Stored.adlerStart, [], Stored.start⟩
    let packet : Packet := ⟨1, [[7]], none⟩
    ∃ turns payload w',
      (∀ more, preCompress (turns + more) ⟨0⟩ packet (TokioWriter.mk (Recorded.mk start []) ()) =
        (.ok (payload.length, payload), w')) ∧
      Stored.inflated Stored.start payload = content 0 packet ∧
      (Stored.inflated Stored.start payload).length = 2 := by
  intro start packet
  obtain ⟨turns, payload, w', earlier, call, hrun, hcalls, hroom, -, -, hwhole, hleft⟩ :=
    async_payload_complete_iff Stored.Deflater.syncFlushing
      (TokioWriter.mk (Recorded.mk start []) ()) 0 packet rfl
  let run := preCompress 3 ⟨0⟩ packet (TokioWriter.mk (Recorded.mk start []) ())
  have hdone : run.1 ≠ .error .unfinished := by decide +kernel
  have hlast : run.2.state.calls.getLast?.map (fun call => call.result.written.length) = some 11 := by
    decide +kernel
  obtain ⟨-, hstate⟩ :=
    (preCompress_steady AsyncCachedPreCompressionWriter.steady ⟨0⟩ packet).unique hrun
    (show preCompress 3 ⟨0⟩ packet _ = (run.1, run.2) from rfl) hdone
  rw [← hstate, hcalls, List.getLast?_concat] at hlast
  have hwritten : call.result.written.length = 11 := Option.some.inj hlast
  obtain ⟨hall, hlength⟩ := hwhole.mpr ⟨rfl, hleft (by rw [hwritten, hroom]; decide)⟩
  exact ⟨turns, payload, w', hrun, hall, hlength⟩

/-- Of 601 bytes announced the payload inflates to 508: the other 93 are still in the
compressor, behind the 512 that went through the scratch buffer. -/
theorem async_payload_truncated :
    let start : Stored.Deflater := ⟨false, false, [], Stored.adlerStart, [], Stored.start⟩
    let packet : Packet := ⟨600, [List.replicate 600 0], none⟩
    let run := preCompress 3 ⟨0⟩ packet (TokioWriter.mk start ())
    (run.1.map fun reply => (Stored.inflated Stored.start reply.2).length) = .ok 508 ∧
      run.2.state.carried.length = 93 ∧ (content 0 packet).length = 601 ∧
      (VarInt.mk 0).size + packet.size = 601 := by
  refine ⟨?_, ?_, ?_, ?_⟩ <;> decide +kernel

end AsyncPayload

end Protocraft
