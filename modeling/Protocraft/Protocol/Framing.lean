import Protocraft.Protocol.Frame
import Protocraft.Protocol.Read

/-! The two ends of a connection.

Writing a packet emits a frame (`writePacketInternal_framed`), and reading one hands the packet
to its handler and ends where the frame does (`readFrame_framed`). -/
namespace Protocraft
open Protocraft.Stream

/-! ### Writing frames -/

section Write
variable {κ ω : Type} [Deflate κ] [Write ω] {Sent : κ → Bytes → Bytes → Prop}
  {Complete : Bytes → Bytes → Prop} {received : ω → Bytes} {start : DefaultWriter κ ω}

theorem writePacketInternal_framed (h : Deflating Sent Complete) (hlawful : Lawful received)
    {turns : Nat} {threshold : Option Nat} {id : I32} {packet : Packet}
    (hsize : packet.size = packet.bytes.length) {w w' : DefaultWriter κ ω} {bytes : Bytes}
    (hw : start.Emitted received w bytes)
    (hok : writePacketInternal turns threshold id packet w = (.ok (), w')) : ∃ frame,
      Framed Complete threshold (content id packet) frame ∧
        start.Emitted received w' (bytes ++ frame) ∧
        received w'.sink = received start.sink ++ start.encoded (bytes ++ frame) := by
  obtain ⟨_, w₁, hframe, hflush⟩ := ok_of_bind hok
  obtain ⟨frame, hframed, hw₁⟩ := writeFrame_framed h hlawful hsize hw hframe
  have hflushed := ok_of_mapError hflush
  exact ⟨frame, hframed, (DefaultWriter.emits hlawful).flush hw₁ hflushed,
    hw₁.flushed hlawful (ok_of_mapError hflushed)⟩

/-- A packet that is accepted goes out as its frame, behind what the buffer held. -/
theorem writePacketInternal_sent (h : Deflating Sent Complete) (hlawful : Lawful received) {turns : Nat}
    {threshold : Option Nat} {id : I32} {packet : Packet} (hsize : packet.size = packet.bytes.length)
    {w w' : DefaultWriter κ ω} (hok : writePacketInternal turns threshold id packet w = (.ok (), w')) :
    ∃ frame, Framed Complete threshold (content id packet) frame ∧
      received w'.sink = received w.sink ++ w.encoded (w.buffer ++ frame) := by
  have hbuffered : w.emptied.Emitted received w w.buffer :=
    DefaultWriter.Emitted.buffered w w.compressionState
  obtain ⟨frame, hframe, -, hsink⟩ := writePacketInternal_framed h hlawful hsize hbuffered hok
  rw [w.emptied_sink, w.emptied_encoded] at hsink
  exact ⟨frame, hframe, hsink⟩

end Write

/-! ### Reading frames -/

section Read
variable {δ α ι ρ : Type} [Inflate ι] [BufRead ρ] {D : ι → Bytes → Bytes → Prop}
  {Complete : Bytes → Bytes → Prop} {R : ρ → Bytes → Prop} {S : ProtocolState δ}
  {handlePacket : δ → Program ReadError Nat α}

theorem decode_length {body rest : Bytes} (hmax : body.length ≤ maxPacketSize) :
    Leb128.decode 3 (Leb128.encode body.length ++ body ++ rest) = some (body.length, body ++ rest) := by
  rw [List.append_assoc]
  refine Leb128.decode_encode 3 _ _ (Leb128.encode_length_le 2 _ ?_)
  simp only [maxPacketSize] at hmax
  omega

variable (S handlePacket) in
omit [Inflate ι] in
/-- A frame is opened within its bound: what is in it is there, or compressed. -/
theorem readFrame_opened (hdelivers : Delivers R Never) {threshold : Option Nat}
    {content frame rest : Bytes} (hframe : Framed Complete threshold content frame)
    (hne : content ≠ []) {r : ρ} (hr : R r (frame ++ rest)) :
    (∃ t, Taken R rest t content ∧ ∀ {ι : Type} [Inflate ι] (s : ι),
      readFrame S handlePacket threshold (DecompressionStateWrappedReader.mk s r) =
        (((handleHelper S handlePacket).run Take.limit t).1,
          ⟨s, ((handleHelper S handlePacket).run Take.limit t).2.inner⟩)) ∨
    ∃ t z least, Taken R rest t z ∧ Complete z content ∧ threshold = some least ∧
      least ≤ content.length ∧
      ∀ {ι : Type} [Inflate ι] (s : ι),
        let d := (handleHelper S handlePacket).run Take.limit
          (⟨⟨Inflate.resetAs s, t⟩, content.length⟩ : Take (DecompressionReader ι (Take ρ)))
        readFrame S handlePacket threshold (DecompressionStateWrappedReader.mk s r) =
          (d.1, ⟨d.2.inner.state, d.2.inner.reader.inner⟩) := by
  cases hframe with
  | plain hmax =>
    obtain ⟨r₁, ht, hread⟩ := readFrame_bounded hdelivers hr (decode_length hmax) none
    refine .inl ⟨_, ht, fun {ι} _ s => ?_⟩
    rw [hread, DecompressionStateWrappedReader.withBound, borrowing_apply, readBody_none]
  | @below threshold _ hbelow hmax =>
    have hlength : content.length + 1 = (Leb128.encode 0 ++ content).length := by
      rw [List.length_append, Leb128.encode_last (by decide), List.length_singleton, Nat.add_comm]
    rw [hlength] at hr hmax
    obtain ⟨r₁, ht, hread⟩ := readFrame_bounded hdelivers hr (decode_length hmax) (some threshold)
    obtain ⟨t, ht, hbody⟩ := readBody_zero hdelivers ht
      (Leb128.decode_encode 5 0 content (Leb128.encode_length_le 4 0 (by decide))) rfl threshold
    refine .inl ⟨t, ht, fun {ι} _ s => ?_⟩
    rw [hread, DecompressionStateWrappedReader.withBound, borrowing_apply, hbody]
  | @compressed threshold _ z habove hint hz hmax =>
    have hsmall : content.length < 2 ^ 31 := by
      simp only [i32Max] at hint
      omega
    have hcompressed : CompressedFrame (Leb128.encode (Leb128.encode content.length ++ z).length ++
        (Leb128.encode content.length ++ z) ++ rest) z content.length rest :=
      ⟨⟨_, _, decode_length hmax,
          Leb128.decode_encode 5 content.length z (Leb128.encode_length_le 4 _ (by omega)),
          Nat.mod_eq_of_lt (by omega)⟩,
        fun he => hne (List.length_eq_zero_iff.mp he), hsmall⟩
    obtain ⟨t, ht, hread⟩ := readFrame_compressed S handlePacket hdelivers hr hcompressed threshold
    exact .inr ⟨t, z, threshold, ht, hz, rfl, habove, hread⟩

/-- A frame is read as what is in it, and unless the helper leaves some of that the stream is left
where the frame ends. -/
theorem readFrame_eval (hideal : Ideal D)
    (hzlib : ∀ {output input} s, Complete output input → D (Inflate.resetAs s) output input)
    (hdelivers : Delivers R Never) (hfills : Fills R) {threshold : Option Nat}
    {content frame rest left : Bytes}
    (hwhole : ∀ least, threshold = some least → least ≤ content.length → Whole R)
    (hframe : Framed Complete threshold content frame) (hne : content ≠ [])
    {reply : Except ReadError (Invocation α)}
    (heval : (handleHelper S handlePacket).eval List.length content = (reply, left)) {r : ρ}
    (hr : R r (frame ++ rest)) (s : ι) :
    ∃ s' r', readFrame S handlePacket threshold (DecompressionStateWrappedReader.mk s r) =
      (reply, ⟨s', r'⟩) ∧
      (left = [] → R r' rest) := by
  obtain ⟨t, ht, hread⟩ | ⟨t, z, least, ht, hz, hleast, habove, hread⟩ :=
    readFrame_opened S handlePacket hdelivers hframe hne hr
  · obtain ⟨t', hrun, ht'⟩ :=
      Program.run_eq (hdelivers.toYields.take rest) (fun ht => ht.2.symm) ht heval
    refine ⟨s, t'.inner, by rw [hread, hrun], ?_⟩
    intro heq
    subst heq
    exact ht'.1
  · have hall : Whole R := hwhole least hleast habove
    have hyields := DecompressionReader.yields_ideal hideal (hfills.take rest) (hall.take rest)
    have hstart : Taken (DecompressionReader.Deflated D (Taken R rest)) []
        (⟨⟨Inflate.resetAs s, t⟩, content.length⟩ : Take (DecompressionReader ι (Take ρ))) content := by
      refine ⟨⟨z, ht, ?_⟩, rfl⟩
      rw [List.append_nil, if_neg hne]
      exact hzlib s hz
    obtain ⟨t', hrun, ⟨z', hz', hdone⟩, -⟩ :=
      Program.run_eq (hyields.take []) (fun ht => ht.2.symm) hstart heval
    refine ⟨t'.inner.state, t'.inner.reader.inner, by rw [hread, hrun], ?_⟩
    intro heq
    subst heq
    rw [List.append_nil, if_pos rfl] at hdone
    subst hdone
    exact hz'.1

theorem decode_id (id : I32) (payload : Bytes) :
    Leb128.decode 5 (Leb128.encode id.toNat ++ payload) = some (id.toNat, payload) :=
  Leb128.decode_encode 5 id.toNat payload (VarInt.mk id).encode_length_le

variable (handlePacket) in
/-- **A frame is read as the packet it was written for**: its handler gets the payload, and
the stream is left where the frame ends. -/
theorem readFrame_framed (hideal : Ideal D)
    (hzlib : ∀ {output input} s, Complete output input → D (Inflate.resetAs s) output input)
    (hdelivers : Delivers R Never) (hfills : Fills R) {threshold : Option Nat}
    {id : I32} {payload frame rest : Bytes}
    (hwhole : ∀ least, threshold = some least → least ≤ (Leb128.encode id.toNat ++ payload).length →
      Whole R)
    (hframe : Framed Complete threshold (Leb128.encode id.toNat ++ payload) frame) {designator : δ}
    (hknown : S.designatorFromId id = some designator) {r : ρ} (hr : R r (frame ++ rest)) (s : ι) :
    ∃ s' r', readFrame S handlePacket threshold (DecompressionStateWrappedReader.mk s r) =
      (.ok (.handled ((handlePacket designator).eval List.length payload).1), ⟨s', r'⟩) ∧ R r' rest := by
  have hne : Leb128.encode id.toNat ++ payload ≠ [] :=
    fun he => Leb128.encode_ne_nil _ (List.append_eq_nil_iff.mp he).1
  have hknown' : S.designatorFromId (BitVec.ofNat 32 id.toNat) = some designator := by
    rwa [BitVec.ofNat_toNat, BitVec.setWidth_eq]
  obtain ⟨s', r', hread, hleft⟩ := readFrame_eval hideal hzlib hdelivers hfills hwhole hframe hne
    (handleHelper_known (decode_id id payload) hknown') hr s
  exact ⟨s', r', hread, hleft rfl⟩

end Read

/-! ### Both ends -/

/-- The frames of packets, one after the other. -/
inductive Frames (Complete : Bytes → Bytes → Prop) : List Outgoing → Bytes → Prop
  | nil : Frames Complete [] []
  | cons {p : Outgoing} {packets : List Outgoing} {frame rest : Bytes}
      (hframe : Framed Complete p.threshold (content p.id p.packet) frame)
      (hrest : Frames Complete packets rest) : Frames Complete (p :: packets) (frame ++ rest)

/-- Where one of the packets is compressed, all that is left of the stream is in one fill. -/
def WholeIfCompressed {ρ : Type} [BufRead ρ] (R : ρ → Bytes → Prop) (packets : List Outgoing) : Prop :=
  ∀ p ∈ packets, ∀ least, p.threshold = some least → least ≤ (content p.id p.packet).length → Whole R

/-- What the handler for its id replies to a packet, given its id and its payload. -/
def Outgoing.reply {δ α : Type} (S : ProtocolState δ) (handlePacket : δ → Program ReadError Nat α)
    (p : Outgoing) : Except ReadError α :=
  match S.designatorFromId p.id with
  | some designator => ((handlePacket designator).eval List.length p.packet.bytes).1
  | none => .error (.unknownPacket S.stateName p.id)

section Both
variable {δ α κ ι ρ ω : Type} [Deflate κ] [Inflate ι] [Write ω] [BufRead ρ]
  {Sent : κ → Bytes → Bytes → Prop} {Complete : Bytes → Bytes → Prop} {D : ι → Bytes → Bytes → Prop}
  {received : ω → Bytes} {start : DefaultWriter κ ω} {R : ρ → Bytes → Prop} {S : ProtocolState δ}
  {handlePacket : δ → Program ReadError Nat α}

theorem writePackets_framed (h : Deflating Sent Complete) (hlawful : Lawful received) {turns : Nat}
    {packets : List Outgoing} (hsizes : ∀ p ∈ packets, p.packet.size = p.packet.bytes.length)
    {w w' : DefaultWriter κ ω} {bytes : Bytes} (hw : start.Emitted received w bytes)
    (hsink : received w.sink = received start.sink ++ start.encoded bytes)
    (hok : writePackets turns packets w = (.ok (), w')) : ∃ frames, Frames Complete packets frames ∧
      received w'.sink = received start.sink ++ start.encoded (bytes ++ frames) := by
  induction packets generalizing w bytes with
  | nil =>
    cases hok
    exact ⟨[], .nil, by rwa [List.append_nil]⟩
  | cons p packets ih =>
    obtain ⟨_, w₁, hfirst, hrest⟩ := ok_of_bind hok
    obtain ⟨frame, hframe, hw₁, hsink₁⟩ :=
      writePacketInternal_framed h hlawful (hsizes p (List.mem_cons_self ..)) hw hfirst
    obtain ⟨frames, hframes, hsink'⟩ :=
      ih (fun p hp => hsizes p (List.mem_cons_of_mem _ hp)) hw₁ hsink₁ hrest
    exact ⟨frame ++ frames, .cons hframe hframes, by rwa [← List.append_assoc]⟩

theorem readPackets_framed (hideal : Ideal D)
    (hzlib : ∀ {output input} s, Complete output input → D (Inflate.resetAs s) output input)
    (hdelivers : Delivers R Never) (hfills : Fills R) {packets : List Outgoing}
    (hwhole : WholeIfCompressed R packets)
    (hknown : ∀ p ∈ packets, (S.designatorFromId p.id).isSome) {bytes rest : Bytes}
    (hframes : Frames Complete packets bytes) {r : ρ} (hr : R r (bytes ++ rest)) (s : ι) :
    ∃ s' r', readPackets S handlePacket (packets.map Outgoing.threshold)
        (DecompressionStateWrappedReader.mk s r) =
      (packets.map (Outgoing.reply S handlePacket), ⟨s', r'⟩) ∧ R r' rest := by
  induction hframes generalizing s r with
  | nil => exact ⟨s, r, rfl, hr⟩
  | @cons p packets frame frames hframe _ ih =>
    obtain ⟨designator, hdesignator⟩ := Option.isSome_iff_exists.mp (hknown p (List.mem_cons_self ..))
    rw [List.append_assoc] at hr
    obtain ⟨s₁, r₁, hfirst, hr₁⟩ :=
      readFrame_framed handlePacket hideal hzlib hdelivers hfills
        (hwhole p (List.mem_cons_self ..)) hframe hdesignator hr s
    obtain ⟨s₂, r₂, hrest, hr₂⟩ := ih (fun p hp => hwhole p (List.mem_cons_of_mem _ hp))
      (fun p hp => hknown p (List.mem_cons_of_mem _ hp)) hr₁ s₁
    refine ⟨s₂, r₂, ?_, hr₂⟩
    simp only [List.map_cons, readPackets, readPacket, hfirst, hrest, Outgoing.reply, hdesignator]
    rfl

/-- **What one end writes the other reads**: if writing packets succeeds, under thresholds
that may change between them, the bytes that the sink received are read back as the same
packets in the same order, each by the handler of its id, on its payload, and nothing of
them is left. -/
theorem framing_round_trip (hdeflating : Deflating Sent Complete) (hideal : Ideal D)
    (hzlib : ∀ {output input} s, Complete output input → D (Inflate.resetAs s) output input)
    (hlawful : Lawful received) (hfresh : start.buffer = []) (turns : Nat) (packets : List Outgoing)
    (hsizes : ∀ p ∈ packets, p.packet.size = p.packet.bytes.length) {w : DefaultWriter κ ω}
    (hwrite : writePackets turns packets start = (.ok (), w)) :
    ∃ bytes, received w.sink = received start.sink ++ start.encoded bytes ∧
      ∀ {δ α ρ : Type} [BufRead ρ] {R : ρ → Bytes → Prop}, Delivers R Never → Fills R →
      WholeIfCompressed R packets → ∀ (S : ProtocolState δ) (handlePacket : δ → Program ReadError Nat α),
        (∀ p ∈ packets, (S.designatorFromId p.id).isSome) →
      ∀ (s : ι) (r : ρ) (rest : Bytes), R r (bytes ++ rest) → ∃ s' r',
        readPackets S handlePacket (packets.map Outgoing.threshold)
            (DecompressionStateWrappedReader.mk s r) =
          (packets.map (Outgoing.reply S handlePacket), ⟨s', r'⟩) ∧ R r' rest := by
  have hempty : received start.sink = received start.sink ++ start.encoded [] := by
    obtain ⟨k, b | e⟩ := start <;> simp [DefaultWriter.encoded, Staged.encoded]
  obtain ⟨frames, hframes, hsink⟩ :=
    writePackets_framed hdeflating hlawful hsizes (DefaultWriter.Emitted.fresh hfresh) hempty hwrite
  refine ⟨frames, hsink, ?_⟩
  intro δ α ρ _ R hdelivers hfills hwhole S handlePacket hknown s r rest hr
  exact readPackets_framed hideal hzlib hdelivers hfills hwhole hknown hframes hr s

/-- Three packets: without compression, below the threshold, and compressed. -/
theorem framing_round_trip_stored :
    let packet : Packet := ⟨2, [[1], [2]], none⟩
    let packets : List Outgoing := [⟨none, 5, packet⟩, ⟨some 100, 5, packet⟩, ⟨some 0, 5, packet⟩]
    let compressor : Stored.Deflater := ⟨false, false, [], Stored.adlerStart, [], Stored.start⟩
    let start := DefaultWriter.new compressor (⟨[]⟩ : Collected) 4
    let S : ProtocolState Unit := ⟨"play", fun id => if id = 5 then some () else none⟩
    let whole : Unit → Program ReadError Nat Bytes := fun _ => .remaining readBytes
    ∃ bytes, (writePackets 3 packets start).2.sink.bytes = [] ++ bytes ∧ ∃ s' r',
      readPackets S whole [none, some 100, some 0]
          (DecompressionStateWrappedReader.mk (⟨Stored.start, []⟩ : Stored.Inflater) (Slice.mk bytes)) =
        ([.ok [1, 2], .ok [1, 2], .ok [1, 2]], ⟨s', r'⟩) ∧ r'.Holds [] := by
  intro packet packets compressor start S whole
  have hok : (writePackets 3 packets start).1 = .ok () := by decide +kernel
  obtain ⟨bytes, hsink, hread⟩ := framing_round_trip Stored.Deflater.deflating Stored.Inflater.ideal
    (fun s h => Stored.Deflater.Complete.yields h s) Collected.lawful (show start.buffer = [] from rfl) 3
    packets (by decide) (replied hok)
  have hidentity : start.encoded bytes = bytes := Mealy.identity_output _ _
  rw [hidentity] at hsink
  exact ⟨bytes, hsink,
    hread Slice.delivers Slice.fills (fun _ _ _ _ _ => Slice.whole) S whole (by decide) _ ⟨bytes⟩ []
    (List.append_nil bytes).symm⟩

end Both

end Protocraft
