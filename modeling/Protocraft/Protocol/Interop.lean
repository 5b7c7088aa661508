import Protocraft.Protocol.AsyncRead
import Protocraft.Protocol.Output
import Protocraft.Stream.Piece

/-! What any provider writes an asynchronous one reads.

An asynchronous provider reads frames as a blocking one would that its transport stands for, so it
reads what blocking writers put there, compressed or not. The asynchronous writers' frames are
the same ones as long as they are not compressed (`async_round_trip`); of compressed ones they may
hold the end back. -/
namespace Protocraft
open Protocraft.Stream

/-- The owner of a provider waits for a packet, under the threshold of the other end. -/
def Outgoing.expected {δ γ : Type} (S : ProtocolState δ)
    (handlePacket : δ → Program ReadError Nat γ) (p : Outgoing) : List (ProviderCall δ γ) :=
  [.setCompressionThreshold p.threshold, .readPacket S handlePacket]

section Read
variable {δ γ κ κ' ι α ρ ω ω' : Type} [Inflate ι] [AsyncRead α] [Read ρ] {A : α → ρ → Prop}
  {early : IoError} {Complete : Bytes → Bytes → Prop} {D : ι → Bytes → Bytes → Prop}
  {R : BufReader (DefaultReader ρ) → Bytes → Prop} {S : ProtocolState δ}

/-- What the polled provider replies to a packet. -/
def Outgoing.heard (early : IoError) (S : ProtocolState δ) (handlePacket : δ → Program ReadError Nat γ)
    (p : Outgoing) : Except (Stop ReadError) γ :=
  (p.reply S (told early handlePacket)).mapError .error

/-- On a blocking transport that its own stands for, the provider would have `bytes` in front of it. -/
def AsyncDefaultStreamProvider.Awaits (A : α → ρ → Prop) (R : BufReader (DefaultReader ρ) → Bytes → Prop)
    (p : AsyncDefaultStreamProvider κ ι α ω) (bytes : Bytes) : Prop :=
  ∃ q : DefaultStreamProvider Unit ι ρ Unit, SameProvider A p q ∧ R q.reader bytes

variable (handlePacket : δ → Program ReadError Nat γ)

/-- One frame, read by polls. -/
theorem async_frame_read (hread : Follows early A) (hideal : Ideal D)
    (hzlib : ∀ {output input} s, Complete output input → D (Inflate.resetAs s) output input)
    (hdelivers : Delivers R Never) (hfills : Fills R) {packet : Outgoing}
    (hknown : (S.designatorFromId packet.id).isSome)
    (hwhole : ∀ least, packet.threshold = some least →
      least ≤ (content packet.id packet.packet).length → Whole R)
    {frame rest : Bytes}
    (hframe : Framed Complete packet.threshold (content packet.id packet.packet) frame)
    {p : AsyncDefaultStreamProvider κ ι α ω}
    (hthreshold : p.compressionThreshold = packet.threshold) (hp : p.Awaits A R (frame ++ rest)) :
    ∃ turns p', p'.Awaits A R rest ∧
      ∀ more, p.asyncReadPacket early (turns + more) S handlePacket =
        (packet.heard early S handlePacket, p') := by
  obtain ⟨q, h, hq⟩ := hp
  obtain ⟨designator, hdesignator⟩ := Option.isSome_iff_exists.mp hknown
  have hknown' : S.designatorFromId (BitVec.ofNat 32 packet.id.toNat) = some designator := by
    rwa [BitVec.ofNat_toNat, BitVec.setWidth_eq]
  have hne : content packet.id packet.packet ≠ [] :=
    fun he => Leb128.encode_ne_nil _ (List.append_eq_nil_iff.mp he).1
  obtain ⟨s', r', hframed, hleft⟩ := readFrame_eval hideal hzlib hdelivers hfills hwhole hframe hne
    (handleHelper_known (decode_id packet.id packet.packet.bytes) hknown') hq q.decompressionState
  obtain ⟨turns, p', hp', hcall⟩ := h.readPacket hread S handlePacket
  have hstream : readFrame S (told early handlePacket) q.compressionThreshold q.readStream = _ :=
    (congrArg (readFrame S (told early handlePacket) · q.readStream)
      (h.threshold.symm.trans hthreshold)).trans hframed
  rw [hstream] at hp' hcall
  refine ⟨turns, p', ⟨_, hp', hleft rfl⟩, fun more => ?_⟩
  rw [hcall more]
  simp only [Outgoing.heard, Outgoing.reply, hdesignator, heard, Except.mapError, Except.bind,
    Invocation.result]

/-- And whole streams of frames. -/
theorem async_frames_read (hread : Follows early A) (hideal : Ideal D)
    (hzlib : ∀ {output input} s, Complete output input → D (Inflate.resetAs s) output input)
    (hdelivers : Delivers R Never) (hfills : Fills R) (aes : Block → Block → Block)
    {packets : List Outgoing} (hknown : ∀ packet ∈ packets, (S.designatorFromId packet.id).isSome)
    (hwhole : WholeIfCompressed R packets) {frames rest : Bytes}
    (hframes : Frames Complete packets frames) {p : AsyncDefaultStreamProvider κ ι α ω}
    (hp : p.Awaits A R (frames ++ rest)) :
    ∃ turns p', p'.Awaits A R rest ∧
      ∀ more, p.calls aes early (turns + more) (packets.flatMap (Outgoing.expected S handlePacket)) =
        (packets.map (Outgoing.heard early S handlePacket), some p') := by
  induction hframes generalizing p with
  | nil => exact ⟨0, p, hp, fun _ => rfl⟩
  | @cons packet packets frame frames hframe _ ih =>
    rw [List.append_assoc] at hp
    have hset : (p.setCompressionThreshold packet.threshold).Awaits A R (frame ++ (frames ++ rest)) := by
      obtain ⟨q, h, hq⟩ := hp
      exact ⟨q.setCompressionThreshold packet.threshold, ⟨h.reader, h.writer, rfl, h.state⟩, hq⟩
    obtain ⟨hknown₁, hknown⟩ := List.forall_mem_cons.mp hknown
    obtain ⟨hwhole₁, hwhole⟩ := List.forall_mem_cons.mp hwhole
    obtain ⟨turns, p₁, hp₁, hfirst⟩ :=
      async_frame_read handlePacket hread hideal hzlib hdelivers hfills hknown₁ hwhole₁ hframe rfl hset
    obtain ⟨turns', p', hp', hrest⟩ := ih hknown hwhole hp₁
    refine ⟨turns + turns', p', hp', fun more => ?_⟩
    have hfirst' := hfirst (turns' + more)
    have hrest' := hrest (turns + more)
    rw [← Nat.add_assoc] at hfirst'
    rw [← Nat.add_assoc, Nat.add_comm turns' turns] at hrest'
    show (p.calls aes early (turns + turns' + more) (.setCompressionThreshold packet.threshold ::
      .readPacket S handlePacket :: packets.flatMap (Outgoing.expected S handlePacket))) = _
    simp only [AsyncDefaultStreamProvider.calls, hfirst', hrest', List.map_cons]

end Read

/-! ### Writing -/

theorem frameBytes_framed {Complete : Bytes → Bytes → Prop} {threshold : Option Nat} {id : I32}
    {packet body : Packet} (hsize : packet.size = packet.bytes.length)
    (hbody : plainBody threshold ⟨id⟩ packet = some body) (hfits : body.size ≤ maxPacketSize)
    (compressed : Nat × Bytes) :
    Framed Complete threshold (content id packet) (frameBytes threshold ⟨id⟩ packet compressed) := by
  obtain ⟨-, hbodysize, hframe, hbelow⟩ := plainBody_some hsize hbody []
  have hmax : maxPacketSize < 2 ^ 32 := by decide
  have hshort : ¬ TooLong threshold (content id packet) [] :=
    (tooLong_plain hsize hbody []).not.mpr (Nat.not_lt.mpr hfits)
  have hframed : Framed Complete threshold (content id packet) _ :=
    frameBody_framed hshort fun t ht habove => absurd habove (Nat.not_le.mpr (hbelow t ht))
  rw [hframe, ← hbodysize] at hframed
  simp only [frameBytes, hbody, Packet.behind_bytes]
  rwa [VarInt.ofNat_toNat (by omega)]

/-- The packet is written as it is. -/
def Outgoing.Uncompressed (p : Outgoing) : Prop := plainBody p.threshold ⟨p.id⟩ p.packet ≠ none

def Outgoing.output (p : Outgoing) : Output := .packet p.threshold p.id p.packet

namespace ProviderWriter
variable {κ ω : Type} {received visible : ω → Bytes}

theorem Sent.refl {w : ProviderWriter κ ω} (hw : w.Drained) : Sent received w w [] :=
  ⟨hw, by rw [Mealy.output_nil, List.append_nil], rfl⟩

theorem Sent.trans {w w₁ w' : ProviderWriter κ ω} {bytes bytes' : Bytes} (h : Sent received w w₁ bytes)
    (h' : Sent received w₁ w' bytes') : Sent received w w' (bytes ++ bytes') := by
  refine ⟨h'.drained, ?_, ?_⟩
  · rw [h'.sink, h.sink, h.cipher, Mealy.output_append, List.append_assoc]
  · rw [h'.cipher, h.cipher, Mealy.after_append]

variable [Deflate κ] [Write ω] [AsyncWrite ω]

/-- Packets that are not compressed leave any provider as frames. -/
theorem puts_framed (Complete : Bytes → Bytes → Prop) (hhides : Hides received visible)
    (hasync : AsyncHides received visible) {aes : Block → Block → Block} {turns : Nat}
    {packets : List Outgoing} (hsizes : ∀ p ∈ packets, p.packet.size = p.packet.bytes.length)
    (hplain : ∀ p ∈ packets, p.Uncompressed) {w w' : ProviderWriter κ ω} (hw : w.Drained)
    (hok : w.puts aes turns (packets.map Outgoing.output) = some w') :
    ∃ frames, Frames Complete packets frames ∧ Sent received w w' frames := by
  induction packets generalizing w with
  | nil =>
    cases hok
    exact ⟨[], .nil, .refl hw⟩
  | cons p packets ih =>
    obtain ⟨hsize, hsizes⟩ := List.forall_mem_cons.mp hsizes
    obtain ⟨hfirst, hplain⟩ := List.forall_mem_cons.mp hplain
    obtain ⟨body, hbody⟩ := Option.ne_none_iff_exists'.mp hfirst
    rcases hcall : w.writePacket turns p.threshold p.id p.packet with ⟨e | _, w₁⟩ <;>
      simp only [List.map_cons, Outgoing.output, puts, hcall] at hok
    · cases hok
    · obtain ⟨compressed, hsent, hfits⟩ := writePacket_sent hhides hasync hw hcall
      obtain ⟨frames, hframes, hrest⟩ := ih hsizes hplain hsent.drained hok
      exact ⟨_, .cons (frameBytes_framed hsize hbody (hfits body hbody) compressed) hframes,
        hsent.trans hrest⟩

end ProviderWriter

/-! ### Both -/

section Both
variable {κ ω : Type} [Deflate κ] [Write ω] [AsyncWrite ω]

theorem none_ideal {ι : Type} [Inflate ι] : Ideal fun (_ : ι) (_ _ : Bytes) => False where
  step h := h.elim
  whole h := h.elim
  consumes h := h.elim

/-- **What any provider writes an asynchronous one reads.** Whichever provider wrote packets, each
below the threshold that it was written under, whatever had to be waited for at either end, an
asynchronous provider that gets the bytes replies what the handlers do to the payloads, and has
nothing of them left. -/
theorem async_round_trip {received visible : ω → Bytes} (hhides : Hides received visible)
    (hasync : AsyncHides received visible) (aes : Block → Block → Block) {turns : Nat}
    {packets : List Outgoing} (hsizes : ∀ p ∈ packets, p.packet.size = p.packet.bytes.length)
    (hplain : ∀ p ∈ packets, p.Uncompressed) {w w' : ProviderWriter κ ω} (hw : w.Drained)
    (hok : w.puts aes turns (packets.map Outgoing.output) = some w') :
    ∃ frames, received w'.sink = received w.sink ++ wire.output w.cipher frames ∧
      ∀ {δ γ κ' ι α ρ ω' : Type} [Inflate ι] [AsyncRead α] [Read ρ] {A : α → ρ → Prop}
        {early : IoError}, Follows early A →
      ∀ {R : BufReader (DefaultReader ρ) → Bytes → Prop}, Delivers R Never → Fills R →
      ∀ (S : ProtocolState δ) (handlePacket : δ → Program ReadError Nat γ),
        (∀ p ∈ packets, (S.designatorFromId p.id).isSome) →
      ∀ (r : AsyncDefaultStreamProvider κ' ι α ω') (rest : Bytes), r.Awaits A R (frames ++ rest) →
      ∃ turns r', r'.Awaits A R rest ∧
        ∀ more, r.calls aes early (turns + more) (packets.flatMap (Outgoing.expected S handlePacket)) =
          (packets.map (Outgoing.heard early S handlePacket), some r') := by
  obtain ⟨frames, hframes, hsent⟩ :=
    ProviderWriter.puts_framed (fun _ _ => False) hhides hasync hsizes hplain hw hok
  refine ⟨frames, hsent.sink, ?_⟩
  intro δ γ κ' ι α ρ ω' _ _ _ A early hread R hdelivers hfills S handlePacket hknown r rest hr
  have hbelow : WholeIfCompressed R packets := by
    intro p hp least hleast habove
    obtain ⟨body, hbody⟩ := Option.ne_none_iff_exists'.mp (hplain p hp)
    obtain ⟨-, -, -, hlength⟩ := plainBody_some (hsizes p hp) hbody []
    exact absurd habove (Nat.not_le.mpr (hlength least hleast))
  exact async_frames_read handlePacket hread none_ideal (fun _ h => h) hdelivers hfills aes hknown
    hbelow hframes hr

/-- Two packets, written by polls in cipher, and read by polls from two segments of which the second
is late. -/
theorem async_round_trip_encrypted :
    let packets : List Outgoing := [⟨none, 5, ⟨2, [[1], [2]], none⟩⟩, ⟨some 100, 5, ⟨0, [], none⟩⟩]
    let aes : Block → Block → Block := fun _ _ _ => 1
    let cipher : Cfb8 := ⟨fun _ _ => 1, fun _ => 0⟩
    let compressor : Stored.Deflater := ⟨false, false, [], Stored.adlerStart, [], Stored.start⟩
    let w : ProviderWriter Stored.Deflater Held :=
      .async ⟨compressor, .encrypt ⟨cipher, ⟨[], []⟩, [], 2, .fill⟩⟩
    let S : ProtocolState Unit := ⟨"play", fun id => if id = 5 then some () else none⟩
    let whole : Unit → Program ReadError Nat Bytes := fun _ => .remaining readBytes
    let delayed : Delayed := ⟨[some [2, 4, 0], none, some [3, 3, 1, 4]], by decide⟩
    let r : AsyncDefaultStreamProvider Unit Stored.Inflater Delayed Unit :=
      ⟨⟨.decrypt ⟨cipher, delayed⟩, [], 4⟩, .encrypt ⟨cipher, (), [], 4, .fill⟩, none, (),
        ⟨Stored.start, []⟩⟩
    ∃ w', w.puts aes 9 (packets.map Outgoing.output) = some w' ∧
      w'.sink.received = [2, 4, 0, 3, 3, 1, 4] ∧
      ∃ turns r', ∀ more,
        r.calls aes failedToFill (turns + more) (packets.flatMap (Outgoing.expected S whole)) =
        ([.ok [1, 2], .ok []], some r') := by
  intro packets aes cipher compressor w S whole delayed r
  have hsent : (w.puts aes 9 (packets.map Outgoing.output)).map (fun w' => w'.sink.received) =
      some [2, 4, 0, 3, 3, 1, 4] := by decide +kernel
  obtain ⟨w', hok, hreceived⟩ := Option.map_eq_some_iff.mp hsent
  have hplain : ∀ p ∈ packets, p.Uncompressed := by
    simp only [packets, List.forall_mem_cons]
    exact ⟨Option.some_ne_none _, Option.some_ne_none _, by simp⟩
  have hsizes : ∀ p ∈ packets, p.packet.size = p.packet.bytes.length := by decide
  obtain ⟨frames, hsink, hread⟩ := async_round_trip Held.hides Held.asyncHides aes hsizes hplain
    (show w.Drained from ⟨rfl, rfl⟩) hok
  have hcipher : [2, 4, 0, 3, 3, 1, 4] = Cfb8.encryptor.output cipher frames := by
    rw [← hreceived, hsink]
    exact wire_output_some cipher frames
  let t : Segments := ⟨[[2, 4, 0], [3, 3, 1, 4]], by decide⟩
  let q : DefaultStreamProvider Unit Stored.Inflater Segments Unit :=
    ⟨⟨.decrypt ⟨cipher, t⟩, [], 4⟩, ⟨(), .encrypt ⟨cipher, (), [], 4⟩⟩, none, ⟨Stored.start, []⟩⟩
  have hbrings : Delayed.Brings delayed t := rfl
  have hsame : SameProvider Delayed.Brings r q :=
    ⟨⟨.decrypt ⟨hbrings, rfl⟩, rfl, rfl⟩, .encrypt, rfl, rfl⟩
  have hheld : Buffered (DefaultReader.Holding Segments.Holds) q.reader (frames ++ []) := by
    refine ⟨by decide, frames, ⟨[2, 4, 0, 3, 3, 1, 4], rfl, ?_⟩, List.append_nil frames⟩
    rw [hcipher, Cfb8.decrypt_encrypt]
  obtain ⟨turns, r', -, hcalls⟩ := hread (Delayed.follows failedToFill)
    (DefaultReader.delivers Segments.delivers).buffered
    (DefaultReader.delivers Segments.delivers).fills S whole (by decide) r [] ⟨q, hsame, hheld⟩
  have hreplies : packets.map (Outgoing.heard failedToFill S whole) = [.ok [1, 2], .ok []] := by
    decide +kernel
  exact ⟨w', hok, hreceived, turns, r', fun more => by rw [hcalls more, hreplies]⟩

omit [AsyncWrite ω] in
/-- **What the blocking writer compresses an asynchronous provider reads**: packets under any
thresholds, as the round trip between blocking ends has it. Where one of them is compressed, all
that is left of the stream has to come in one fill. -/
theorem async_reads_compressed {Sent : κ → Bytes → Bytes → Prop} {Complete : Bytes → Bytes → Prop}
    {received : ω → Bytes} {start w : DefaultWriter κ ω} (hdeflating : Deflating Sent Complete)
    (hlawful : Lawful received) (hfresh : start.buffer = []) (turns : Nat) (packets : List Outgoing)
    (hsizes : ∀ p ∈ packets, p.packet.size = p.packet.bytes.length)
    (hwrite : writePackets turns packets start = (.ok (), w)) :
    ∃ frames, received w.sink = received start.sink ++ start.encoded frames ∧
      ∀ {δ γ κ' ι α ρ ω' : Type} [Inflate ι] [AsyncRead α] [Read ρ]
        {D : ι → Bytes → Bytes → Prop}, Ideal D →
        (∀ {output input} s, Complete output input → D (Inflate.resetAs s) output input) →
      ∀ {A : α → ρ → Prop} {early : IoError}, Follows early A →
      ∀ {R : BufReader (DefaultReader ρ) → Bytes → Prop}, Delivers R Never → Fills R →
      WholeIfCompressed R packets →
      ∀ (aes : Block → Block → Block) (S : ProtocolState δ) (handlePacket : δ → Program ReadError Nat γ),
        (∀ p ∈ packets, (S.designatorFromId p.id).isSome) →
      ∀ (r : AsyncDefaultStreamProvider κ' ι α ω') (rest : Bytes), r.Awaits A R (frames ++ rest) →
      ∃ turns r', r'.Awaits A R rest ∧
        ∀ more, r.calls aes early (turns + more) (packets.flatMap (Outgoing.expected S handlePacket)) =
          (packets.map (Outgoing.heard early S handlePacket), some r') := by
  have hempty : received start.sink = received start.sink ++ start.encoded [] := by
    obtain ⟨k, b | e⟩ := start <;> simp [DefaultWriter.encoded, Staged.encoded]
  obtain ⟨frames, hframes, hsink⟩ :=
    writePackets_framed hdeflating hlawful hsizes (DefaultWriter.Emitted.fresh hfresh) hempty hwrite
  refine ⟨frames, hsink, ?_⟩
  intro δ γ κ' ι α ρ ω' _ _ _ D hideal hzlib A early hread R hdelivers hfills hwhole aes S
    handlePacket hknown r rest hr
  exact async_frames_read handlePacket hread hideal hzlib hdelivers hfills aes hknown hwhole hframes hr

/-- Three packets: without compression, below the threshold, and compressed. -/
theorem async_reads_compressed_stored :
    let packet : Packet := ⟨2, [[1], [2]], none⟩
    let packets : List Outgoing := [⟨none, 5, packet⟩, ⟨some 100, 5, packet⟩, ⟨some 0, 5, packet⟩]
    let aes : Block → Block → Block := fun _ _ _ => 1
    let compressor : Stored.Deflater := ⟨false, false, [], Stored.adlerStart, [], Stored.start⟩
    let start := DefaultWriter.new compressor (⟨[]⟩ : Collected) 4
    let S : ProtocolState Unit := ⟨"play", fun id => if id = 5 then some () else none⟩
    let whole : Unit → Program ReadError Nat Bytes := fun _ => .remaining readBytes
    ∃ bytes, (writePackets 3 packets start).2.sink.bytes = bytes ∧ ∃ hsome : bytes ≠ [],
      let delayed : Delayed := ⟨[none, some bytes], by simp [hsome]⟩
      let r : AsyncDefaultStreamProvider Unit Stored.Inflater Delayed Unit :=
        .new delayed () () ⟨Stored.start, []⟩ 64
      ∃ turns r', ∀ more,
        r.calls aes failedToFill (turns + more) (packets.flatMap (Outgoing.expected S whole)) =
        ([.ok [1, 2], .ok [1, 2], .ok [1, 2]], some r') := by
  intro packet packets aes compressor start S whole
  have hok : (writePackets 3 packets start).1 = .ok () := by decide +kernel
  have hsome : (writePackets 3 packets start).2.sink.bytes ≠ [] := by decide +kernel
  have hlength : (writePackets 3 packets start).2.sink.bytes.length ≤ 64 := by decide +kernel
  obtain ⟨frames, hsink, hread⟩ := async_reads_compressed Stored.Deflater.deflating Collected.lawful
    (show start.buffer = [] from rfl) 3 packets (by decide) (replied hok)
  have hidentity : start.encoded frames = frames := Mealy.identity_output _ _
  rw [hidentity] at hsink
  generalize (writePackets 3 packets start).2.sink.bytes = bytes at hsome hlength hsink
  obtain rfl : bytes = frames := hsink
  refine ⟨bytes, rfl, hsome, ?_⟩
  intro delayed r
  let t : Segments := ⟨[bytes], by simp [hsome]⟩
  let q : DefaultStreamProvider Unit Stored.Inflater Segments Unit := .new t () () ⟨Stored.start, []⟩ 64
  have hbrings : Delayed.Brings delayed t := rfl
  have hpiece : OnePiece (DefaultReader.Holding Segments.Holds) q.reader (bytes ++ []) := by
    rw [List.append_nil]
    have hsingle : t.Single 64 := .inr ⟨bytes, rfl, hlength⟩
    refine ⟨Nat.zero_lt_succ 63, .inr ⟨rfl, List.append_nil bytes, fun n hn => ?_⟩⟩
    obtain ⟨t', hread, ht'⟩ := hsingle.prompt n hn
    have hall : t.segments.flatten = bytes := List.append_nil bytes
    rw [hall] at hread
    refine ⟨.standard t', ?_, ht'⟩
    show ((Read.read n t).1, DefaultReader.standard (Read.read n t).2) = _
    rw [hread]
  obtain ⟨turns, r', -, hcalls⟩ := hread Stored.Inflater.ideal
    (fun s h => Stored.Deflater.Complete.yields h s)
    (Delayed.follows failedToFill) (DefaultReader.delivers Segments.delivers).onePiece
    (DefaultReader.delivers Segments.delivers).onePiece_fills
    (fun _ _ _ _ _ => (DefaultReader.delivers Segments.delivers).onePiece_whole) aes S whole
      (by decide) r [] ⟨q, .new hbrings () () () () _ 64, hpiece⟩
  have hreplies : packets.map (Outgoing.heard failedToFill S whole) =
      [.ok [1, 2], .ok [1, 2], .ok [1, 2]] := by
    decide +kernel
  exact ⟨turns, r', fun more => by rw [hcalls more, hreplies]⟩

end Both

end Protocraft
