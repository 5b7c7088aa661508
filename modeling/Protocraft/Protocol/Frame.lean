import Protocraft.Protocol.Write

/-! What a packet puts into its writer.

A frame's body is what follows its length. A packet that is not compressed is written as its
body is, behind the length; one that is compressed is known to be too long only behind the
compressor. `writeFrame_ok` is all that a packet that is written does, whatever the writer. In
the blocking writer it leaves its frame (`writeFrame_framed`). -/
namespace Protocraft
open Protocraft.Stream

/-- The frame of a packet under a threshold. -/
inductive Framed (Complete : Bytes → Bytes → Prop) : Option Nat → Bytes → Bytes → Prop
  | plain {content : Bytes} (hmax : content.length ≤ maxPacketSize) :
    Framed Complete none content (Leb128.encode content.length ++ content)
  | below {threshold : Nat} {content : Bytes} (hbelow : content.length < threshold)
      (hmax : content.length + 1 ≤ maxPacketSize) :
    Framed Complete (some threshold) content
      (Leb128.encode (content.length + 1) ++ (Leb128.encode 0 ++ content))
  | compressed {threshold : Nat} {content body : Bytes} (habove : threshold ≤ content.length)
      (hint : content.length ≤ i32Max) (hbody : Complete body content)
      (hmax : (Leb128.encode content.length ++ body).length ≤ maxPacketSize) :
    Framed Complete (some threshold) content
      (Leb128.encode (Leb128.encode content.length ++ body).length ++
        (Leb128.encode content.length ++ body))

/-! ### Writing -/

namespace VarInt
variable {ω : Type} [Writer ω] {E : ω → Bytes → Prop}

theorem toWriter_emits (h : Emits E) {turns : Nat} {v : VarInt} {w w' : ω} {bytes : Bytes}
    (hw : E w bytes) (hok : v.toWriter turns w = (.ok (), w')) :
    E w' (bytes ++ Leb128.encode v.value.toNat) := by
  rw [toWriter_eq] at hok
  exact h.write hw (ok_of_mapError hok)

theorem ofNat_toNat {n : Nat} (h : n < 2 ^ 32) : (ofNat n).value.toNat = n := by
  rw [ofNat, BitVec.toNat_ofNat, Nat.mod_eq_of_lt h]

end VarInt

/-- The packet behind a number. -/
def Packet.behind (v : VarInt) (packet : Packet) : Packet :=
  {packet with size := v.size + packet.size, writes := Leb128.encode v.value.toNat :: packet.writes}

theorem Packet.behind_bytes (v : VarInt) (packet : Packet) :
    (packet.behind v).bytes = Leb128.encode v.value.toNat ++ packet.bytes :=
  List.flatten_cons

/-- The body of a packet's frame, as a packet of its own; none if it is compressed. -/
def plainBody (threshold : Option Nat) (id : VarInt) (packet : Packet) : Option Packet :=
  match threshold with
  | none => some (packet.behind id)
  | some threshold =>
    if id.size + packet.size < threshold then some ((packet.behind id).behind (.ofNat 0)) else none

section Writer
variable {ω : Type} [Writer ω]

/-- Writing a number and then a packet is writing the packet behind the number. -/
theorem VarInt.toWriter_bind (turns : Nat) (v : VarInt) (packet : Packet) :
    (v.toWriter turns >>= fun _ => packet.toWriter turns : Action (Stop WriteError) ω Unit) =
      (packet.behind v).toWriter turns := by
  funext w
  rw [VarInt.toWriter_eq, Packet.toWriter, Packet.toWriter, bind_apply, bind_apply]
  rcases hwrite : Writer.write turns (Leb128.encode v.value.toNat) w with ⟨e | _, w₁⟩
  · have heach : writeEach turns (packet.behind v).writes w = (.error e, w₁) := bind_error hwrite
    rw [mapError_error hwrite, mapError_error heach]
  · have heach : writeEach turns (packet.behind v).writes w = writeEach turns packet.writes w₁ :=
      bind_ok hwrite
    rw [mapError_ok hwrite]
    dsimp only
    rw [bind_apply, mapError_apply, mapError_apply, heach]
    rfl

end Writer

section Write
variable {ω π χ : Type} [CompressableWriter ω π χ] [Writer ω] [PreCompressionWriter π]
  [CompressionWriter χ]

omit [PreCompressionWriter π] in
/-- The payload of a compressed packet, behind two numbers. -/
def writeLengths (turns : Nat) (v v' : VarInt) (payload : Bytes) (id : VarInt) (packet : Packet) :
    Action (Stop WriteError) ω Unit := do
  v.toWriter turns
  v'.toWriter turns
  writeCompressed turns payload id packet

/-- A packet that is not compressed is written behind its length, if it is not too long. -/
theorem writeFrame_plain {turns : Nat} {threshold : Option Nat} {id : VarInt} {packet body : Packet}
    (hbody : plainBody threshold id packet = some body) : ∃ name, ∀ w : ω,
      writeFrame turns threshold id packet w =
        if maxPacketSize < body.size then (.error (.error (.overSized name maxPacketSize body.size)), w)
        else (body.behind (.ofNat body.size)).toWriter turns w := by
  cases threshold with
  | none =>
    cases hbody
    refine ⟨"no_compression_size", fun w => ?_⟩
    have hsize : (packet.behind id).size = id.size + packet.size := rfl
    simp only [writeFrame, VarInt.toWriter_bind, hsize]
    split <;> rfl
  | some threshold =>
    by_cases hbelow : id.size + packet.size < threshold
    · simp only [plainBody, hbelow, if_true] at hbody
      cases hbody
      refine ⟨"compression_below_size", fun w => ?_⟩
      have hsize : ((packet.behind id).behind (.ofNat 0)).size = id.size + packet.size + 1 :=
        Nat.add_comm 1 _
      simp only [writeFrame, VarInt.toWriter_bind, hbelow, if_true, hsize]
      split <;> rfl
    · simp only [plainBody, hbelow, if_false] at hbody
      cases hbody

/-- One that is compressed is written behind both its lengths, if the compressor does not fail
and it is not too long. -/
theorem writeFrame_compressed {turns : Nat} {threshold : Option Nat} {id : VarInt} {packet : Packet}
    (hbody : plainBody threshold id packet = none) (w : ω) :
    writeFrame turns threshold id packet w =
      match preCompress turns id packet w with
      | (.error e, w₁) => (.error e, w₁)
      | (.ok (compressedSize, payload), w₁) =>
        let totalSize := id.size + packet.size
        let size := (VarInt.ofNat totalSize).size + compressedSize
        if i32Max < totalSize then
          (.error (.error (.overSized "uncompressed_varint" i32Max totalSize)), w₁)
        else if maxPacketSize < size then
          (.error (.error (.overSized "no_compression_size" maxPacketSize size)), w₁)
        else writeLengths turns (.ofNat size) (.ofNat totalSize) payload id packet w₁ := by
  cases threshold with
  | none => cases hbody
  | some threshold =>
    have habove : ¬ id.size + packet.size < threshold := by
      intro hbelow
      simp only [plainBody, hbelow, if_true] at hbody
      cases hbody
    rw [writeFrame]
    dsimp only
    rw [if_neg habove, bind_apply]
    rcases preCompress turns id packet w with ⟨e | ⟨compressedSize, payload⟩, w₁⟩
    · rfl
    · dsimp only
      split
      · rfl
      · split <;> rfl

/-- All that a packet that is written does. -/
theorem writeFrame_ok {turns : Nat} {threshold : Option Nat} {id : VarInt} {packet : Packet} {w w' : ω}
    (hok : writeFrame turns threshold id packet w = (.ok (), w')) :
    (∃ body, plainBody threshold id packet = some body ∧ body.size ≤ maxPacketSize ∧
      (body.behind (.ofNat body.size)).toWriter turns w = (.ok (), w')) ∨
    plainBody threshold id packet = none ∧ ∃ compressedSize payload w₁,
      preCompress turns id packet w = (.ok (compressedSize, payload), w₁) ∧
      id.size + packet.size ≤ i32Max ∧
      (VarInt.ofNat (id.size + packet.size)).size + compressedSize ≤ maxPacketSize ∧
      writeLengths turns (.ofNat ((VarInt.ofNat (id.size + packet.size)).size + compressedSize))
        (.ofNat (id.size + packet.size)) payload id packet w₁ = (.ok (), w') := by
  cases hbody : plainBody threshold id packet with
  | some body =>
    obtain ⟨name, hwrite⟩ := @writeFrame_plain ω _ _ _ _ _ _ turns _ _ _ _ hbody
    rw [hwrite] at hok
    split at hok
    · cases hok
    · next hmax => exact .inl ⟨body, rfl, Nat.not_lt.mp hmax, hok⟩
  | none =>
    rw [writeFrame_compressed hbody] at hok
    rcases hpre : preCompress turns id packet w with ⟨e | ⟨compressedSize, payload⟩, w₁⟩ <;>
      rw [hpre] at hok
    · cases hok
    · dsimp only at hok
      split at hok
      · cases hok
      · next htotal =>
        split at hok
        · cases hok
        · next hmax =>
          exact .inr ⟨rfl, compressedSize, payload, w₁, rfl, Nat.not_lt.mp htotal,
            Nat.not_lt.mp hmax, hok⟩

omit [PreCompressionWriter π] in
theorem lengths_emits {E : ω → Bytes → Prop} (h : Emits E) {turns : Nat} {v v' : VarInt}
    {payload : Bytes} {id : VarInt} {packet : Packet}
    (hcompressed : ∀ {w w' bytes}, E w bytes → writeCompressed turns payload id packet w = (.ok (), w') →
      E w' (bytes ++ payload)) {w w' : ω} {bytes : Bytes} (hw : E w bytes)
    (hok : writeLengths turns v v' payload id packet w = (.ok (), w')) :
    E w' (bytes ++ (Leb128.encode v.value.toNat ++ (Leb128.encode v'.value.toNat ++ payload))) := by
  obtain ⟨_, w₁, hlength, hrest⟩ := ok_of_bind hok
  obtain ⟨_, w₂, hplain, hpayload⟩ := ok_of_bind hrest
  have hsent := hcompressed (VarInt.toWriter_emits h (VarInt.toWriter_emits h hw hlength) hplain)
      hpayload
  rwa [List.append_assoc, List.append_assoc] at hsent

end Write

section PreCompress
variable {ω π χ : Type} [CompressableWriter ω π χ] [PreCompressionWriter π] {turns : Nat} {id : VarInt}
  {packet : Packet} {w w' : ω} {result : Nat × Bytes}

/-- A packet that is compressed is written to the compressing writer, which is then flushed. -/
theorem preCompress_ok (hok : preCompress turns id packet w = (.ok result, w')) :
    ∃ p p', (packet.behind id).toWriter turns (CompressableWriter.preCompressionWriter w) = (.ok (), p) ∧
      Writer.flush turns p = (.ok (), p') ∧ result = PreCompressionWriter.finish p' ∧
      w' = CompressableWriter.preCompressed p' w := by
  obtain ⟨p', hcompress, rfl⟩ := ok_of_borrowing hok
  obtain ⟨_, p₁, hid, hrest⟩ := ok_of_bind hcompress
  obtain ⟨_, p, hpacket, hrest⟩ := ok_of_bind hrest
  obtain ⟨_, p₂, hflush, hfinish⟩ := ok_of_bind hrest
  cases hfinish
  refine ⟨p, p', ?_, ok_of_mapError hflush, rfl, rfl⟩
  rw [← VarInt.toWriter_bind]
  exact (bind_ok hid).trans hpacket

theorem written_of_preCompress (hok : preCompress turns id packet w = (.ok result, w')) :
    packet.failure = none := by
  obtain ⟨p, p', hwrite, -⟩ := preCompress_ok hok
  exact (Packet.each_of_ok hwrite).1

end PreCompress

/-- The payload goes to the compressed writer first, and the packet behind it. -/
theorem writeCompressed_ok {ω π χ : Type} [CompressableWriter ω π χ] [CompressionWriter χ] {turns : Nat}
    {payload : Bytes} {id : VarInt} {packet : Packet} {w w' : ω}
    (hok : writeCompressed turns payload id packet w = (.ok (), w')) :
    ∃ c c', CompressionWriter.initializeWith turns payload (CompressableWriter.withCompression w) =
      (.ok (), c) ∧
      (packet.behind id).toWriter turns c = (.ok (), c') ∧ w' = CompressableWriter.compressed c' w := by
  obtain ⟨c', hcompressed, rfl⟩ := ok_of_borrowing hok
  obtain ⟨_, c, hpayload, hrest⟩ := ok_of_bind hcompressed
  rw [VarInt.toWriter_bind] at hrest
  exact ⟨c, c', ok_of_mapError hpayload, hrest, rfl⟩

/-- A packet written to a writer keeps what its calls keep. -/
theorem Emits.keeps {ω : Type} [Writer ω] {I : ω → Prop} (h : Emits fun w (_ : Bytes) => I w)
    {turns : Nat} {packet : Packet} {w w' : ω} (hw : I w)
    (hok : packet.toWriter turns w = (.ok (), w')) : I w' :=
  @Emits.packet _ _ _ h _ _ _ _ [] hw hok

/-! ### What a packet comes to -/

theorem length_content (id : I32) {packet : Packet} (hsize : packet.size = packet.bytes.length) :
    (VarInt.mk id).size + packet.size = (content id packet).length := by
  rw [content, List.length_append, VarInt.size_eq, hsize]

/-- What follows the length in the frame of a packet, of which `payload` is the compressed form. -/
def frameBody (threshold : Option Nat) (content payload : Bytes) : Bytes :=
  match threshold with
  | none => content
  | some threshold =>
    if content.length < threshold then Leb128.encode 0 ++ content
    else Leb128.encode content.length ++ payload

/-- The frame is too long, or what is compressed in it. -/
def TooLong (threshold : Option Nat) (content payload : Bytes) : Prop :=
  maxPacketSize < (frameBody threshold content payload).length ∨
    ∃ t, threshold = some t ∧ t ≤ content.length ∧ i32Max < content.length

theorem plainBody_some {threshold : Option Nat} {id : I32} {packet body : Packet}
    (hsize : packet.size = packet.bytes.length) (hbody : plainBody threshold ⟨id⟩ packet = some body)
    (payload : Bytes) : body.failure = packet.failure ∧ body.size = body.bytes.length ∧
      frameBody threshold (content id packet) payload = body.bytes ∧
      ∀ t, threshold = some t → (content id packet).length < t := by
  cases threshold with
  | none =>
    cases hbody
    refine ⟨rfl, ?_, (Packet.behind_bytes _ _).symm, fun t h => by cases h⟩
    rw [Packet.behind_bytes]
    exact length_content id hsize
  | some threshold =>
    rw [plainBody, length_content id hsize] at hbody
    split at hbody
    next hbelow =>
      cases hbody
      refine ⟨rfl, ?_, ?_, fun t h => by cases h; exact hbelow⟩
      · rw [Packet.behind_bytes, Packet.behind_bytes, List.length_append, ← VarInt.size_eq]
        exact congrArg _ (length_content id hsize)
      · rw [frameBody, if_pos hbelow, Packet.behind_bytes, Packet.behind_bytes]
        rfl
    next => cases hbody

theorem plainBody_none {threshold : Option Nat} {id : I32} {packet : Packet}
    (hsize : packet.size = packet.bytes.length) (hbody : plainBody threshold ⟨id⟩ packet = none)
    (payload : Bytes) : frameBody threshold (content id packet) payload =
        Leb128.encode (content id packet).length ++ payload ∧
      ∃ t, threshold = some t ∧ t ≤ (content id packet).length := by
  cases threshold with
  | none => cases hbody
  | some threshold =>
    rw [plainBody, length_content id hsize] at hbody
    split at hbody
    next => cases hbody
    next habove =>
      refine ⟨?_, threshold, rfl, Nat.not_lt.mp habove⟩
      rw [frameBody, if_neg habove]

theorem tooLong_plain {threshold : Option Nat} {id : I32} {packet body : Packet}
    (hsize : packet.size = packet.bytes.length) (hbody : plainBody threshold ⟨id⟩ packet = some body)
    (payload : Bytes) : TooLong threshold (content id packet) payload ↔ maxPacketSize < body.size := by
  obtain ⟨-, hbodysize, hframe, hbelow⟩ := plainBody_some hsize hbody payload
  rw [TooLong, hframe, hbodysize]
  refine or_iff_left ?_
  intro hlong
  obtain ⟨t, ht, habove, -⟩ := hlong
  exact Nat.not_lt.mpr habove (hbelow t ht)

theorem tooLong_compressed {threshold : Option Nat} {id : I32} {packet : Packet}
    (hsize : packet.size = packet.bytes.length) (hbody : plainBody threshold ⟨id⟩ packet = none)
    (payload : Bytes) : TooLong threshold (content id packet) payload ↔
    i32Max < (content id packet).length ∨
      maxPacketSize < (Leb128.encode (content id packet).length ++ payload).length := by
  obtain ⟨hframe, t, ht, habove⟩ := plainBody_none hsize hbody payload
  rw [TooLong, hframe, or_comm]
  exact or_congr_left ⟨fun ⟨_, _, _, h⟩ => h, fun h => ⟨t, ht, habove, h⟩⟩

/-- What is not too long is the body of a frame. -/
theorem frameBody_framed {Complete : Bytes → Bytes → Prop} {threshold : Option Nat}
    {content payload : Bytes} (hfits : ¬ TooLong threshold content payload)
    (hcomplete : ∀ t, threshold = some t → t ≤ content.length → Complete payload content) :
    let body := frameBody threshold content payload
    Framed Complete threshold content (Leb128.encode body.length ++ body) := by
  obtain ⟨hmax, hint⟩ := not_or.mp hfits
  dsimp only
  cases threshold with
  | none => exact .plain (Nat.not_lt.mp hmax)
  | some t =>
    rw [frameBody] at hmax ⊢
    split at hmax
    · next hbelow =>
      have hlength : (Leb128.encode 0 ++ content).length = content.length + 1 := by
        rw [List.length_append, Leb128.encode_last (by decide), List.length_singleton, Nat.add_comm]
      rw [if_pos hbelow, hlength]
      rw [hlength] at hmax
      exact .below hbelow (Nat.not_lt.mp hmax)
    · next hbelow =>
      have habove := Nat.not_lt.mp hbelow
      rw [if_neg hbelow]
      refine .compressed habove ?_ (hcomplete t rfl habove) (Nat.not_lt.mp hmax)
      exact Nat.not_lt.mp fun h => hint ⟨t, rfl, habove, h⟩

/-! ### The blocking writer -/

namespace DefaultWriter
variable {κ ω : Type} [Write ω] {received : ω → Bytes} {start : DefaultWriter κ ω}

/-- Started as `start`, the writer has been given `bytes`. -/
def Emitted (received : ω → Bytes) (start w : DefaultWriter κ ω) (bytes : Bytes) : Prop :=
  match start.writer, w.writer with
  | .standard b, .standard b' => ∃ done, Staged.Delivering received b ⟨b', bytes⟩ done
  | .encrypt e, .encrypt e' => ∃ done, Staged.Delivering received e ⟨e', bytes⟩ done
  | _, _ => False

theorem Emitted.step (hlawful : Lawful received) {w w' : DefaultWriter κ ω} {bytes : Bytes}
    (hw : Emitted received start w bytes) {op : WriteOp} {n : Nat}
    (hop : op.perform w = (.ok n, w')) : Emitted received start w' (bytes ++ op.bytes.take n) := by
  obtain ⟨k₀, b₀ | e₀⟩ := start <;> obtain ⟨k, b | e⟩ := w <;> try exact hw.elim
  · obtain ⟨done, hd⟩ := hw
    rw [(wraps_standard k).perform op b] at hop
    rcases hperform : op.perform b with ⟨e | m, b'⟩ <;> rw [hperform] at hop <;> cases hop
    exact hd.step_ok hlawful hperform
  · obtain ⟨done, hd⟩ := hw
    rw [(wraps_encrypt k).perform op e] at hop
    rcases hperform : op.perform e with ⟨err | m, e'⟩ <;> rw [hperform] at hop <;> cases hop
    exact hd.step_ok hlawful hperform

theorem emits (hlawful : Lawful received) : Emits (Emitted received start) := by
  refine Emits.of_write ?_ ?_
  · intro w w' bytes data n hw hwrite
    have hop : (WriteOp.write data).perform w = (.ok n, w') := hwrite
    exact hw.step hlawful hop
  · intro w w' bytes hw hflush
    have hop : WriteOp.flush.perform w = (.ok 0, w') := by
      rw [WriteOp.perform_flush, hflush]
      rfl
    simpa [WriteOp.bytes] using hw.step hlawful hop

/-- After a flush all of it is in the sink. -/
theorem Emitted.flushed (hlawful : Lawful received) {w w' : DefaultWriter κ ω} {bytes : Bytes}
    (hw : Emitted received start w bytes) (hflush : Write.flush w = (.ok (), w')) :
    received w'.sink = received start.sink ++ start.encoded bytes := by
  obtain ⟨k₀, b₀ | e₀⟩ := start <;> obtain ⟨k, b | e⟩ := w <;> try exact hw.elim
  · obtain ⟨done, hd⟩ := hw
    rw [(wraps_standard k).flush b] at hflush
    rcases hinner : Write.flush b with ⟨e | _, b'⟩ <;> rw [hinner] at hflush <;> cases hflush
    have hdone := Staged.Sound.flushed (s := ⟨b, bytes⟩) (.inr ⟨id, done, hd⟩) hlawful
      (fun hfalse => hfalse.elim) (by rw [hinner])
    rw [hinner] at hdone
    exact hdone
  · obtain ⟨done, hd⟩ := hw
    rw [(wraps_encrypt k).flush e] at hflush
    rcases hinner : Write.flush e with ⟨err | _, e'⟩ <;> rw [hinner] at hflush <;> cases hflush
    have hdone := Staged.Sound.flushed (s := ⟨e, bytes⟩) (.inr ⟨id, done, hd⟩) hlawful
      (fun hfalse => hfalse.elim) (by rw [hinner])
    rw [hinner] at hdone
    exact hdone

omit [Write ω] in
/-- A writer with nothing in its buffer has been given nothing yet. -/
theorem Emitted.fresh (hfresh : start.buffer = []) : Emitted received start start [] := by
  obtain ⟨k, b | e⟩ := start
  · exact ⟨[], by simp [show b.buffer = [] from hfresh], by simp [Staged.encoded], rfl⟩
  · exact ⟨[], by simp [show e.buffer = [] from hfresh], by simp [Staged.encoded], rfl⟩

/-- The writer before anything was in its buffer. -/
def emptied (w : DefaultWriter κ ω) : DefaultWriter κ ω :=
  match w.writer with
  | .standard b => {w with writer := .standard {b with buffer := []}}
  | .encrypt e => {w with writer := .encrypt {e with buffer := []}}

omit [Write ω] in
theorem Emitted.buffered (w : DefaultWriter κ ω) (k : κ) :
    w.emptied.Emitted received {w with compressionState := k} w.buffer := by
  obtain ⟨k₀, b | e⟩ := w
  · exact ⟨[], rfl, (List.append_nil _).symm, rfl⟩
  · exact ⟨[], rfl, (List.append_nil _).symm, rfl⟩

omit [Write ω] in
theorem emptied_sink (w : DefaultWriter κ ω) : w.emptied.sink = w.sink := by
  obtain ⟨k, b | e⟩ := w <;> rfl

omit [Write ω] in
theorem emptied_encoded (w : DefaultWriter κ ω) (bytes : Bytes) :
    w.emptied.encoded bytes = w.encoded bytes := by
  obtain ⟨k, b | e⟩ := w <;> rfl

end DefaultWriter

/-- A packet's payload, as the writer would compress it. -/
def Outgoing.payload {κ ω : Type} [Deflate κ] (turns : Nat) (w : DefaultWriter κ ω) (p : Outgoing) :
    Bytes :=
  match (preCompress turns ⟨p.id⟩ p.packet w).1 with
  | .ok (_, payload) => payload
  | .error _ => []

def Outgoing.frame {κ ω : Type} [Deflate κ] (turns : Nat) (w : DefaultWriter κ ω) (p : Outgoing) :
    Bytes :=
  let body := frameBody p.threshold (content p.id p.packet) (p.payload turns w)
  Leb128.encode body.length ++ body

section Write
variable {κ ω : Type} [Deflate κ] [Write ω] {Sent : κ → Bytes → Bytes → Prop}
  {Complete : Bytes → Bytes → Prop} {received : ω → Bytes} {start : DefaultWriter κ ω}

omit [Write ω] in
/-- Compressing touches nothing but the compressor, and its payload is a whole stream. -/
theorem preCompress_complete (h : Deflating Sent Complete) {turns n : Nat} {id : I32} {packet : Packet}
    {payload : Bytes} {w w' : DefaultWriter κ ω}
    (hok : preCompress turns ⟨id⟩ packet w = (.ok (n, payload), w')) :
    n = payload.length ∧ Complete payload (content id packet) ∧
      ∃ k, w' = {w with compressionState := k} := by
  obtain ⟨p, p', hwrite, hflush, hresult, rfl⟩ := preCompress_ok hok
  have hstart := CachedPreCompressionWriter.Compressed.fresh h w.compressionState
  have hwritten := (CachedPreCompressionWriter.emits h).packet hstart hwrite
  rw [List.nil_append, Packet.behind_bytes] at hwritten
  obtain ⟨-, hcomplete⟩ := CachedPreCompressionWriter.flush_ok h hwritten hflush
  cases hresult
  exact ⟨rfl, hcomplete, _, rfl⟩

/-- The payload goes out, and the packet a second time does not. -/
theorem writeCompressed_emits {E : DefaultWriter κ ω → Bytes → Prop} (h : Emits E) {turns : Nat}
    {payload : Bytes} {id : VarInt} {packet : Packet} {w w' : DefaultWriter κ ω} {bytes : Bytes}
    (hw : E w bytes) (hok : writeCompressed turns payload id packet w = (.ok (), w')) :
    E w' (bytes ++ payload) := by
  have hsink : Emits (fun (c : CachedCompressionWriter (DefaultWriter κ ω)) (_ : Bytes) =>
      E c.writer (bytes ++ payload)) := by
    refine ⟨fun hc hwrite => ?_, fun hc hflush => ?_⟩
    · cases hwrite
      exact hc
    · obtain ⟨v, hinner, rfl⟩ := ok_of_borrowing hflush
      exact h.flush hc hinner
  obtain ⟨c, c', hinitialize, hwrite, rfl⟩ := writeCompressed_ok hok
  obtain ⟨v, hpayload, rfl⟩ := ok_of_borrowing hinitialize
  have hstart : E v (bytes ++ payload) := h.write hw hpayload
  exact hsink.keeps hstart hwrite

omit [Write ω] in
theorem preCompress_length {turns n : Nat} {id : VarInt} {packet : Packet} {payload : Bytes}
    {w w' : DefaultWriter κ ω} (hok : preCompress turns id packet w = (.ok (n, payload), w')) :
    n = payload.length := by
  obtain ⟨p, p', -, -, hresult, -⟩ := preCompress_ok hok
  cases hresult
  rfl

/-- A packet that is written is not too long, and its frame is in the writer. -/
theorem writeFrame_sent {turns : Nat} {threshold : Option Nat} {id : I32} {packet : Packet}
    {payload : Bytes} (hsize : packet.size = packet.bytes.length) {w w' : DefaultWriter κ ω}
    (hcompress : ∀ t, threshold = some t → t ≤ (content id packet).length →
      ∃ w₁, preCompress turns ⟨id⟩ packet w = (.ok (payload.length, payload), w₁))
    (hok : writeFrame turns threshold ⟨id⟩ packet w = (.ok (), w')) :
    let body := frameBody threshold (content id packet) payload
    ¬ TooLong threshold (content id packet) payload ∧
    ∀ {E : DefaultWriter κ ω → Bytes → Prop} {bytes : Bytes}, Emits E →
      (∀ k, E {w with compressionState := k} bytes) →
      E w' (bytes ++ (Leb128.encode body.length ++ body)) := by
  have hlimit : maxPacketSize < 2 ^ 32 := by decide
  have hint : i32Max < 2 ^ 32 := by decide
  dsimp only
  obtain ⟨body, hbody, hmax, hwrite⟩ | ⟨hbody, n, payload', w₁, hpre, htotal, hmax, hwrite⟩ :=
    writeFrame_ok hok
  · obtain ⟨-, hbodysize, hframe, -⟩ := plainBody_some hsize hbody payload
    rw [tooLong_plain hsize hbody, hframe]
    refine ⟨Nat.not_lt.mpr hmax, fun hemits hE => ?_⟩
    have hsent := hemits.packet (hE w.compressionState) hwrite
    rwa [Packet.behind_bytes, VarInt.ofNat_toNat (by omega), hbodysize] at hsent
  · obtain ⟨hframe, t, ht, habove⟩ := plainBody_none hsize hbody payload
    obtain ⟨w₂, hpre'⟩ := hcompress t ht habove
    obtain ⟨k, rfl⟩ : ∃ k, w₁ = {w with compressionState := k} := ⟨_, (congrArg Prod.snd hpre).symm⟩
    obtain ⟨hsame, -⟩ := Prod.mk.inj (hpre.symm.trans hpre')
    cases hsame
    rw [length_content id hsize] at htotal hmax hwrite
    rw [VarInt.size_eq, VarInt.ofNat_toNat (by omega), ← List.length_append] at hmax hwrite
    rw [tooLong_compressed hsize hbody, hframe]
    refine ⟨not_or.mpr ⟨Nat.not_lt.mpr htotal, Nat.not_lt.mpr hmax⟩, fun hemits hE => ?_⟩
    have hsent := lengths_emits hemits (writeCompressed_emits hemits) (hE k) hwrite
    rwa [VarInt.ofNat_toNat (by omega), VarInt.ofNat_toNat (by omega)] at hsent

theorem compressed_of_writeFrame {turns : Nat} {w w' : DefaultWriter κ ω} {p : Outgoing}
    (hsize : p.packet.size = p.packet.bytes.length)
    (hok : writeFrame turns p.threshold ⟨p.id⟩ p.packet w = (.ok (), w')) :
    ∀ t, p.threshold = some t → t ≤ (content p.id p.packet).length → ∃ w₁,
      preCompress turns ⟨p.id⟩ p.packet w =
        (.ok ((p.payload turns w).length, p.payload turns w), w₁) := by
  intro t ht habove
  have hbody : plainBody p.threshold ⟨p.id⟩ p.packet = none := by
    rw [ht, plainBody, length_content p.id hsize, if_neg (Nat.not_lt.mpr habove)]
  obtain ⟨body, hsome, -⟩ | ⟨-, n, payload, w₁, hpre, -⟩ := writeFrame_ok hok
  · cases hbody.symm.trans hsome
  · obtain rfl := preCompress_length hpre
    exact ⟨w₁, by rw [Outgoing.payload, hpre]⟩

/-- A packet written is in the writer as its frame, which is not too long. -/
theorem writeFrame_sends {turns : Nat} {w w' : DefaultWriter κ ω} {p : Outgoing}
    (hsize : p.packet.size = p.packet.bytes.length)
    (hok : writeFrame turns p.threshold ⟨p.id⟩ p.packet w = (.ok (), w')) :
    ¬ TooLong p.threshold (content p.id p.packet) (p.payload turns w) ∧
    ∀ {E : DefaultWriter κ ω → Bytes → Prop} {bytes : Bytes}, Emits E →
      (∀ k, E {w with compressionState := k} bytes) → E w' (bytes ++ p.frame turns w) :=
  writeFrame_sent hsize (compressed_of_writeFrame hsize hok) hok

/-- And it is a frame. -/
theorem Outgoing.frame_framed (h : Deflating Sent Complete) {turns : Nat} {w w' : DefaultWriter κ ω}
    {p : Outgoing} (hsize : p.packet.size = p.packet.bytes.length)
    (hok : writeFrame turns p.threshold ⟨p.id⟩ p.packet w = (.ok (), w')) :
    Framed Complete p.threshold (content p.id p.packet) (p.frame turns w) := by
  refine frameBody_framed (writeFrame_sends hsize hok).1 fun t ht habove => ?_
  obtain ⟨w₁, hpre⟩ := compressed_of_writeFrame hsize hok t ht habove
  exact (preCompress_complete h hpre).2.1

/-- **What a packet emits is its frame**, in one of the three forms. -/
theorem writeFrame_framed (h : Deflating Sent Complete) (hlawful : Lawful received) {turns : Nat}
    {threshold : Option Nat} {id : I32} {packet : Packet} (hsize : packet.size = packet.bytes.length)
    {w w' : DefaultWriter κ ω} {bytes : Bytes} (hw : start.Emitted received w bytes)
    (hok : writeFrame turns threshold ⟨id⟩ packet w = (.ok (), w')) : ∃ frame,
      Framed Complete threshold (content id packet) frame ∧
        start.Emitted received w' (bytes ++ frame) := by
  let p : Outgoing := ⟨threshold, id, packet⟩
  have hok' : writeFrame turns p.threshold ⟨p.id⟩ p.packet w = (.ok (), w') := hok
  exact ⟨p.frame turns w, p.frame_framed h hsize hok',
    (writeFrame_sends hsize hok').2 (DefaultWriter.emits hlawful) fun _ => hw⟩

end Write

end Protocraft
