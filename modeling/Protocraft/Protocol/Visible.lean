import Protocraft.Defaults.AsyncCalls
import Protocraft.Protocol.Limits

/-! When the peer can see a packet.

A sink may itself be buffered: what it has been given can be seen once it has been flushed. The
synchronous writer ends every packet with a flush of its sink; the asynchronous ones end it with a
`poll_flush` that hands over their buffer and no more. So just the first makes a packet visible
(`written_visible_iff`). -/
namespace Protocraft
open Protocraft.Stream

/-! ### What any writer is given -/

section Carries
variable {ω π χ : Type} [CompressableWriter ω π χ] [Writer ω] [PreCompressionWriter π]
  [CompressionWriter χ]

/-- `E w bytes`: writer `w` has been given `bytes`; compressing a packet gives it none, and writing
what that came to gives it the payload. -/
structure Carries (E : ω → Bytes → Prop) : Prop extends Emits E where
  preCompress : ∀ {turns id packet w w' result bytes}, E w bytes →
    preCompress turns id packet w = (.ok result, w') → E w' bytes
  compressed : ∀ {turns payload id packet w w' bytes}, E w bytes →
    writeCompressed turns payload id packet w = (.ok (), w') → E w' (bytes ++ payload)

/-- The frame of a packet, which `compressed` is the compressed form of, behind the size that was
announced for it. -/
def frameBytes (threshold : Option Nat) (id : VarInt) (packet : Packet) (compressed : Nat × Bytes) :
    Bytes :=
  match plainBody threshold id packet with
  | some body => (body.behind (.ofNat body.size)).bytes
  | none =>
    let uncompressed := VarInt.ofNat (id.size + packet.size)
    Leb128.encode (VarInt.ofNat (uncompressed.size + compressed.1)).value.toNat ++
      (Leb128.encode uncompressed.value.toNat ++ compressed.2)

theorem frameBytes_ne_nil (threshold : Option Nat) (id : VarInt) (packet : Packet)
    (compressed : Nat × Bytes) :
    frameBytes threshold id packet compressed ≠ [] := by
  unfold frameBytes
  split
  · rw [Packet.behind_bytes]
    exact fun h => Leb128.encode_ne_nil _ (List.append_eq_nil_iff.mp h).1
  · exact fun h => Leb128.encode_ne_nil _ (List.append_eq_nil_iff.mp h).1

theorem Carries.writeFrame {E : ω → Bytes → Prop} (h : Carries E) {turns : Nat} {threshold : Option Nat}
    {id : VarInt} {packet : Packet} {w w' : ω} {bytes : Bytes} (hw : E w bytes)
    (hok : writeFrame turns threshold id packet w = (.ok (), w')) :
    ∃ compressed, E w' (bytes ++ frameBytes threshold id packet compressed) := by
  obtain ⟨body, hbody, -, hwrite⟩ | ⟨hbody, compressedSize, payload, w₁, hpre, -, -, hwrite⟩ :=
    writeFrame_ok hok
  · refine ⟨(0, []), ?_⟩
    rw [frameBytes, hbody]
    exact h.toEmits.packet hw hwrite
  · refine ⟨(compressedSize, payload), ?_⟩
    rw [frameBytes, hbody]
    exact lengths_emits h.toEmits h.compressed (h.preCompress hw hpre) hwrite

end Carries

/-! ### The blocking writer -/

section Sync
variable {κ ω : Type} [Write ω] {received visible : ω → Bytes}

theorem DefaultWriter.carries [Deflate κ] (hlawful : Lawful received) (start : DefaultWriter κ ω) :
    Carries (start.Emitted received : DefaultWriter κ ω → Bytes → Prop) where
  toEmits := emits hlawful
  preCompress := by
    intro turns id packet w w' result bytes hw hok
    obtain ⟨p, -, rfl⟩ := ok_of_borrowing hok
    exact hw
  compressed := by
    intro turns payload id packet w w' bytes hw hok
    exact writeCompressed_emits (emits hlawful) hw hok

/-- A flush ends with one of the sink. -/
theorem Staged.flush_shown {κ : Type} [InPlace κ] (hhides : Hides received visible) {s s' : Staged κ ω}
    (hok : Write.flush s = (.ok (), s')) : visible s'.writer = received s'.writer := by
  have hinner : ∀ {s s' : Staged κ ω}, flushInner s = (.ok (), s') →
      visible s'.writer = received s'.writer := by
    intro s s' hok
    obtain ⟨hreply, rfl⟩ := Prod.mk.inj hok
    exact hhides.shown (replied hreply)
  by_cases hover : s.buffer ≠ []
  · have happly : Write.flush s = (writeOut >>= fun _ => flushInner) s := if_pos hover
    rw [happly] at hok
    obtain ⟨_, s₁, -, hlast⟩ := ok_of_bind hok
    exact hinner hlast
  · have happly : Write.flush s = flushInner s := if_neg hover
    exact hinner (happly.symm.trans hok)

theorem DefaultWriter.flush_shown (hhides : Hides received visible) {w w' : DefaultWriter κ ω}
    (hok : Write.flush w = (.ok (), w')) : visible w'.sink = received w'.sink := by
  obtain ⟨k, b | e⟩ := w
  · obtain ⟨hreply, rfl⟩ := Prod.mk.inj hok
    exact Staged.flush_shown hhides (replied hreply)
  · obtain ⟨hreply, rfl⟩ := Prod.mk.inj hok
    exact Staged.flush_shown hhides (replied hreply)

end Sync

/-! ### The polled writers -/

section Carries
variable {κ ω : Type} [Deflate κ] [PollWriter ω]

omit [PollWriter ω] in
/-- The writer inside is put away while a packet is compressed. -/
theorem AsyncCachedPreCompressionWriter.emits_cached (writer : ω) :
    Emits (fun (p : AsyncCachedPreCompressionWriter κ ω) (_ : Bytes) => p.cachedWriter = writer) where
  write := by
    intro turns w w' _ data hw hok
    have hwrite : asyncWrite turns data w = (.ok (), w') := hok
    obtain ⟨⟨v, offset⟩, hrun, rfl⟩ := ok_of_borrowing hwrite
    refine Turn.Exits.keeps (I := fun t => t.1.cachedWriter = writer) ?_ hw (Turn.run_ok hrun)
    intro t ht
    obtain ⟨v, offset⟩ := t
    simp only [asyncWriteTurn]
    split
    · exact ht
    · split
      · exact ht
      · split
        · exact ht
        · exact ht
  flush := by
    intro turns w w' _ hw hok
    cases hok
    exact hw

theorem TokioWriter.carries {E : ω → Bytes → Prop} (h : Polled E) :
    Carries (fun (w : TokioWriter κ ω) bytes => E w.writer bytes) where
  toEmits := TokioWriter.emits h
  preCompress := by
    intro turns id packet w w' result bytes hw hok
    have hemits := AsyncCachedPreCompressionWriter.emits_cached (κ := κ) w.writer
    obtain ⟨p, p', hwrite, hflush, -, rfl⟩ := preCompress_ok hok
    have hcached : p.cachedWriter = w.writer := hemits.keeps rfl hwrite
    cases hflush
    show E p.cachedWriter bytes
    rwa [hcached]
  compressed := by
    intro turns payload id packet w w' bytes hw hok
    obtain ⟨c, c', hinitialize, hwrite, rfl⟩ := writeCompressed_ok hok
    obtain ⟨v, hpayload, rfl⟩ := ok_of_borrowing hinitialize
    have hsent : E v (bytes ++ payload) := asyncWriteAll_ok h hw hpayload
    exact (TokioWriter.emits (κ := κ)
      (AsyncCachedCompressionWriter.polled h (bytes ++ payload))).keeps hsent hwrite

end Carries

section Async
variable {ω : Type} [AsyncWrite ω] {received visible : ω → Bytes}

namespace AsyncStaged
variable {κ : Type} [InPlace κ] {s s' start : AsyncStaged κ ω}

omit [InPlace κ] in
theorem writeTurn_hidden (hhides : AsyncHides received visible) {α : Type}
    {written : AsyncStaged κ ω → Turn (AsyncStaged κ ω) (PollIo α)}
    (hwritten : ∀ t, (written t).state.writer = t.writer) (s : AsyncStaged κ ω) (offset : Nat) :
    visible (writeTurn written s offset).state.writer = visible s.writer := by
  rcases writeTurn_cases written s offset
    with ⟨reply, w, hpoll, -, answer, -, hturn⟩ | ⟨n, w, hpoll, hturn⟩ <;> rw [hturn]
  · have hhidden := hhides.hidden (s.buffer.drop offset) s.writer
    rwa [hpoll] at hhidden
  · have hhidden := hhides.hidden (s.buffer.drop offset) s.writer
    rw [hpoll] at hhidden
    split
    · rw [hwritten]
      exact hhidden
    · exact hhidden

theorem pollWriteTurn_hidden (hhides : AsyncHides received visible) (buf : Bytes) (s : AsyncStaged κ ω) :
    visible (pollWriteTurn buf s).state.writer = visible s.writer := by
  cases hs : s.state with
  | fill =>
    rw [pollWriteTurn_fill buf hs]
    split <;> rfl
  | write offset =>
    rw [pollWriteTurn_write buf hs]
    exact writeTurn_hidden hhides (fun _ => rfl) s offset

theorem pollFlushTurn_hidden (hhides : AsyncHides received visible) (s : AsyncStaged κ ω) :
    visible (pollFlushTurn s).state.writer = visible s.writer := by
  cases hs : s.state with
  | fill =>
    rw [pollFlushTurn_fill hs]
    rfl
  | write offset =>
    rw [pollFlushTurn_write hs]
    exact writeTurn_hidden hhides (fun _ => rfl) s offset

/-- Of what it has delivered since `start` nothing has become visible. -/
structure Hidden (received visible : ω → Bytes) (start : AsyncStaged κ ω)
    (s : Session (AsyncStaged κ ω)) : Prop
    extends Delivering received start s where
  hidden : visible s.writer.writer = visible start.writer

theorem Hidden.pollWrite (hhides : AsyncHides received visible) {accepted buf : Bytes}
    {reply : PollIo Nat} (h : Hidden received visible start ⟨s, accepted⟩)
    (hpoll : polls.write buf s reply s') :
    Hidden received visible start ⟨s', accepted ++ buf.take reply.accepted⟩ := by
  refine ⟨h.toDelivering.pollWrite hhides.toAsyncTakes hpoll, ?_⟩
  refine Turn.Exits.keeps (I := fun t => visible t.writer = visible start.writer) ?_ h.hidden hpoll
  intro t ht
  rw [pollWriteTurn_hidden hhides, ht]

theorem Hidden.pollFlush (hhides : AsyncHides received visible) {accepted : Bytes} {reply : PollIo Unit}
    (h : Hidden received visible start ⟨s, accepted⟩) (hpoll : polls.flush s reply s') :
    Hidden received visible start ⟨s', accepted⟩ := by
  refine ⟨(h.toDelivering.pollFlush hhides.toAsyncTakes hpoll).1, ?_⟩
  refine Turn.Exits.keeps (I := fun t => visible t.writer = visible start.writer) ?_ h.hidden hpoll
  intro t ht
  rw [pollFlushTurn_hidden hhides, ht]

/-- After a flush that succeeds the sink has all of it. -/
theorem Hidden.flushed (hhides : AsyncHides received visible) {accepted : Bytes}
    (h : Hidden received visible start ⟨s, accepted⟩) (hpoll : polls.flush s (.ready (.ok ())) s') :
    received s'.writer = received start.writer ++ InPlace.machine.output start.encryptor accepted := by
  obtain ⟨hd, hdone⟩ := h.toDelivering.pollFlush hhides.toAsyncTakes hpoll
  obtain ⟨hstate, hbuffer⟩ := hdone rfl
  have hdelivered := hd.delivered
  simp only [outstanding, hstate, hbuffer, Mealy.output_nil, List.append_nil] at hdelivered
  exact hdelivered

end AsyncStaged

namespace AsyncDefaultWriter
variable {start w w' : AsyncDefaultWriter ω} {bytes : Bytes}

/-- What the mode makes of the bytes accepted. -/
def encoded (w : AsyncDefaultWriter ω) (bytes : Bytes) : Bytes :=
  match w with
  | standard b => InPlace.machine.output b.encryptor bytes
  | encrypt e => InPlace.machine.output e.encryptor bytes

omit [AsyncWrite ω] in
theorem length_encoded (w : AsyncDefaultWriter ω) (bytes : Bytes) :
    (w.encoded bytes).length = bytes.length := by
  cases w <;> exact Mealy.length_output _ _ _

/-- Its buffer is empty, and to be filled. -/
def Unused : AsyncDefaultWriter ω → Prop
  | standard b => b.state = .fill ∧ b.buffer = []
  | encrypt e => e.state = .fill ∧ e.buffer = []

/-- Started as `start`, the writer has been given `bytes`, and has shown none of them. -/
def Emitted (received visible : ω → Bytes) (start w : AsyncDefaultWriter ω) (bytes : Bytes) : Prop :=
  match start, w with
  | standard b, standard b' => AsyncStaged.Hidden received visible b ⟨b', bytes⟩
  | encrypt e, encrypt e' => AsyncStaged.Hidden received visible e ⟨e', bytes⟩
  | _, _ => False

omit [AsyncWrite ω] in
theorem Emitted.unused (h : start.Unused) : Emitted received visible start start [] := by
  cases start with
  | standard b => exact ⟨.fresh h.1 h.2, rfl⟩
  | encrypt e => exact ⟨.fresh h.1 h.2, rfl⟩

theorem Emitted.pollWrite (hhides : AsyncHides received visible)
    (h : Emitted received visible start w bytes) {buf : Bytes} {reply : PollIo Nat}
    (hpoll : polls.write buf w reply w') :
    Emitted received visible start w' (bytes ++ buf.take reply.accepted) := by
  cases start <;> cases w <;> cases w' <;> first | exact h.elim | exact hpoll.elim | skip
  · exact AsyncStaged.Hidden.pollWrite hhides h hpoll
  · exact AsyncStaged.Hidden.pollWrite hhides h hpoll

theorem Emitted.pollFlush (hhides : AsyncHides received visible)
    (h : Emitted received visible start w bytes) {reply : PollIo Unit}
    (hpoll : polls.flush w reply w') : Emitted received visible start w' bytes := by
  cases start <;> cases w <;> cases w' <;> first | exact h.elim | exact hpoll.elim | skip
  · exact AsyncStaged.Hidden.pollFlush hhides h hpoll
  · exact AsyncStaged.Hidden.pollFlush hhides h hpoll

theorem Emitted.flushed (hhides : AsyncHides received visible)
    (h : Emitted received visible start w bytes) (hpoll : polls.flush w (.ready (.ok ())) w') :
    received w'.sink = received start.sink ++ start.encoded bytes ∧
      visible w'.sink = visible start.sink := by
  have hkept := h.pollFlush hhides hpoll
  cases start <;> cases w <;> cases w' <;> first | exact h.elim | exact hpoll.elim | skip
  · exact ⟨AsyncStaged.Hidden.flushed hhides h hpoll, hkept.hidden⟩
  · exact ⟨AsyncStaged.Hidden.flushed hhides h hpoll, hkept.hidden⟩

theorem polled (hhides : AsyncHides received visible) (start : AsyncDefaultWriter ω) :
    Polled (start.Emitted received visible) where
  write h hpoll := h.pollWrite hhides (polls_write hpoll)
  flush h hpoll := h.pollFlush hhides (polls_flush hpoll)

theorem Emitted.reaches (hhides : AsyncHides received visible) (h : start.Unused)
    {s : Session (AsyncDefaultWriter ω)}
    (hreach : polls.Reaches ⟨start, []⟩ s) : Emitted received visible start s.writer s.accepted := by
  induction hreach with
  | start => exact .unused h
  | write _ hpoll ih => exact ih.pollWrite hhides hpoll
  | flush _ hpoll ih => exact ih.pollFlush hhides hpoll

end AsyncDefaultWriter
end Async

/-! ### Every provider -/

/-- The writer of a provider: the blocking one, or a polled one, of Tokio or of futures. -/
inductive ProviderWriter (κ ω : Type) where
  | sync (writer : DefaultWriter κ ω)
  | async (writer : TokioWriter κ (AsyncDefaultWriter ω))

namespace ProviderWriter
variable {κ ω : Type}

def sink : ProviderWriter κ ω → ω
  | sync w => w.sink
  | async w => w.writer.sink

def encoded (w : ProviderWriter κ ω) (bytes : Bytes) : Bytes :=
  match w with
  | sync w => w.encoded bytes
  | async w => w.writer.encoded bytes

def Blocking : ProviderWriter κ ω → Prop
  | sync _ => True
  | async _ => False

/-- `write_packet` and `async_write_packet`, with the threshold of the provider. -/
def writePacket [Deflate κ] [Write ω] [AsyncWrite ω] (turns : Nat) (threshold : Option Nat) (id : I32)
    (packet : Packet) :
    Action (Stop WriteError) (ProviderWriter κ ω) Unit := fun w =>
  match w with
  | sync w =>
    ((writePacketInternal turns threshold id packet w).1,
      sync (writePacketInternal turns threshold id packet w).2)
  | async w =>
    ((writePacketInternal turns threshold id packet w).1,
      async (writePacketInternal turns threshold id packet w).2)

/-- The writer, `start` once, has been given `accepted` since. A blocking one may have anything in its
buffer; a polled one is in a state that some polls have led to. -/
def Since [AsyncWrite ω] (w start : ProviderWriter κ ω) (accepted : Bytes) : Prop :=
  match w, start with
  | sync w, sync v => v = w.emptied ∧ accepted = w.buffer
  | async w, async v =>
    v.writer.Unused ∧ AsyncDefaultWriter.polls.Reaches ⟨v.writer, []⟩ ⟨w.writer, accepted⟩
  | _, _ => False

end ProviderWriter

section Visible
variable {κ ω : Type} [Deflate κ] [Write ω] [AsyncWrite ω] {received visible : ω → Bytes}

omit [AsyncWrite ω] in
/-- The blocking writer has written a packet, and flushed its sink. -/
theorem sync_written (hhides : Hides received visible) {turns : Nat} {threshold : Option Nat} {id : I32}
    {packet : Packet} {w w' : DefaultWriter κ ω}
    (hok : writePacketInternal turns threshold id packet w = (.ok (), w')) :
    ∃ compressed, received w'.sink = received w.emptied.sink ++
        w.emptied.encoded (w.buffer ++ frameBytes threshold ⟨id⟩ packet compressed) ∧
      visible w'.sink = received w'.sink := by
  obtain ⟨_, w₁, hframe, hflush⟩ := ok_of_bind hok
  have hbuffered : w.emptied.Emitted received w w.buffer :=
    DefaultWriter.Emitted.buffered w w.compressionState
  obtain ⟨compressed, hw₁⟩ :=
    (DefaultWriter.carries hhides.toLawful w.emptied).writeFrame hbuffered hframe
  have hflushed : Write.flush w₁ = (.ok (), w') := ok_of_mapError (ok_of_mapError hflush)
  exact ⟨compressed, hw₁.flushed hhides.toLawful hflushed, DefaultWriter.flush_shown hhides hflushed⟩

omit [Write ω] in
/-- A polled one has written it, and its sink has shown nothing since the start. -/
theorem async_written (hasync : AsyncHides received visible) {turns : Nat}
    {threshold : Option Nat} {id : I32} {packet : Packet} {start : AsyncDefaultWriter ω}
    {w w' : TokioWriter κ (AsyncDefaultWriter ω)} {accepted : Bytes}
    (hw : start.Emitted received visible w.writer accepted)
    (hok : writePacketInternal turns threshold id packet w = (.ok (), w')) :
    ∃ compressed, received w'.writer.sink =
        received start.sink ++ start.encoded (accepted ++ frameBytes threshold ⟨id⟩ packet compressed) ∧
      visible w'.writer.sink = visible start.sink := by
  obtain ⟨_, w₁, hframe, hflush⟩ := ok_of_bind hok
  have hpolled := AsyncDefaultWriter.polled hasync start
  obtain ⟨compressed, hw₁⟩ := (TokioWriter.carries hpolled).writeFrame hw hframe
  obtain ⟨v, hv, hpoll⟩ := TokioWriter.flush_ok hpolled hw₁ (ok_of_mapError hflush)
  exact ⟨compressed, hv.flushed hasync (AsyncDefaultWriter.polls_flush hpoll)⟩

/-- **Just the blocking writer makes a packet visible.** A packet that is written is in the sink,
behind what had been given to the writer before; and all the sink has can be seen just when the
provider is the blocking one. -/
theorem written_visible_iff (hhides : Hides received visible) (hasync : AsyncHides received visible)
    {turns : Nat}
    {threshold : Option Nat} {id : I32} {packet : Packet} {start w w' : ProviderWriter κ ω}
    {accepted : Bytes} (hsince : w.Since start accepted)
    (hok : w.writePacket turns threshold id packet = (.ok (), w')) :
    ∃ compressed, received w'.sink =
        received start.sink ++ start.encoded (accepted ++ frameBytes threshold ⟨id⟩ packet compressed) ∧
      (visible w'.sink = received w'.sink ↔ w.Blocking) := by
  cases w with
  | sync w =>
    cases start with
    | async v => exact hsince.elim
    | sync v =>
      obtain ⟨rfl, rfl⟩ := hsince
      obtain ⟨hreply, rfl⟩ := Prod.mk.inj hok
      obtain ⟨compressed, hsent, hshown⟩ := sync_written hhides (replied hreply)
      exact ⟨compressed, hsent, iff_of_true hshown trivial⟩
  | async w =>
    cases start with
    | sync v => exact hsince.elim
    | async v =>
      obtain ⟨hunused, hreach⟩ := hsince
      obtain ⟨hreply, rfl⟩ := Prod.mk.inj hok
      obtain ⟨compressed, hsent, hhidden⟩ :=
        async_written hasync (.reaches hasync hunused hreach) (replied hreply)
      refine ⟨compressed, hsent, iff_of_false ?_ fun h => h⟩
      intro hshown
      have hwithin := (hasync.within v.writer.sink).length_le
      have hlength := congrArg List.length (hhidden.symm.trans (hshown.trans hsent))
      have hframe := List.length_pos_iff.mpr (frameBytes_ne_nil threshold ⟨id⟩ packet compressed)
      rw [List.length_append, AsyncDefaultWriter.length_encoded, List.length_append] at hlength
      omega

end Visible

/-- A packet of one byte, in plain, over a sink that holds back what it has. -/
theorem written_visible_held :
    let packet : Packet := ⟨1, [[7]], none⟩
    let compressor : Stored.Deflater := ⟨false, false, [], Stored.adlerStart, [], Stored.start⟩
    let blocking : ProviderWriter Stored.Deflater Held := .sync (.new compressor ⟨[], []⟩ 4)
    let polled : ProviderWriter Stored.Deflater Held := .async ⟨compressor, .new ⟨[], []⟩ 4⟩
    ((blocking.writePacket 9 none 0 packet).1 = .ok () ∧
      (polled.writePacket 9 none 0 packet).1 = .ok ()) ∧
      (blocking.writePacket 9 none 0 packet).2.sink.visible =
        (blocking.writePacket 9 none 0 packet).2.sink.received ∧
      (polled.writePacket 9 none 0 packet).2.sink.visible ≠
        (polled.writePacket 9 none 0 packet).2.sink.received := by
  intro packet compressor blocking polled
  have hblocking : (blocking.writePacket 9 none 0 packet).1 = .ok () := by decide +kernel
  have hpolled : (polled.writePacket 9 none 0 packet).1 = .ok () := by decide +kernel
  have hsync : blocking.Since blocking [] := ⟨rfl, rfl⟩
  have hasync : polled.Since polled [] := ⟨⟨rfl, rfl⟩, .start⟩
  obtain ⟨_, -, hshown⟩ := written_visible_iff Held.hides Held.asyncHides hsync (replied hblocking)
  obtain ⟨_, -, hhidden⟩ := written_visible_iff Held.hides Held.asyncHides hasync (replied hpolled)
  exact ⟨⟨hblocking, hpolled⟩, hshown.mpr trivial, fun h => hhidden.mp h⟩

/-- It is written, plain or encrypted, and the sink has it: of three bytes none can be seen. -/
theorem written_not_visible :
    let packet : Packet := ⟨1, [[7]], none⟩
    let compressor : Stored.Deflater := ⟨false, false, [], Stored.adlerStart, [], Stored.start⟩
    let plain : ProviderWriter Stored.Deflater Held := .async ⟨compressor, .new ⟨[], []⟩ 4⟩
    let encrypted : ProviderWriter Stored.Deflater Held :=
      .async ⟨compressor, .encrypt ⟨⟨fun _ _ => 1, fun _ => 0⟩, ⟨[], []⟩, [], 4, .fill⟩⟩
    ((plain.writePacket 9 none 0 packet).1 = .ok () ∧
      (plain.writePacket 9 none 0 packet).2.sink = ⟨[], [2, 0, 7]⟩) ∧
    (encrypted.writePacket 9 none 0 packet).1 = .ok () ∧
      (encrypted.writePacket 9 none 0 packet).2.sink = ⟨[], [3, 1, 6]⟩ := by
  refine ⟨⟨?_, ?_⟩, ?_, ?_⟩ <;> decide +kernel

end Protocraft
