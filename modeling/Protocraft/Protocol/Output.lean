import Protocraft.Protocol.LegacyPing
import Protocraft.Protocol.Sending
import Protocraft.Protocol.Visible

/-! What a provider puts on the stream.

Each call that writes ends with a flush, and behind a flush that succeeds the buffer is empty. So
what a run of calls writes comes out call by call, packets and data as it is alike: in plain, and
from the call that switches encryption on as one stream of ciphertext (`puts_sent`). Of what is
not compressed all providers make the same bytes, however large their buffers are and however
slowly their transports take them (`providers_agree`). -/
namespace Protocraft
open Protocraft.Stream
open ToWriter (WrittenAs slices written)

instance : ToWriter Packet := ⟨Packet.toWriter⟩

/-! ### Data as it is -/

section Writer
variable {ω α : Type} [Writer ω] [ToWriter α]

/-- `write_raw`, and `async_write_raw`. -/
def writeRaw (turns : Nat) (data : α) : Action (Stop WriteError) ω Unit := do
  ToWriter.toWriter turns data
  mapError (Stop.map .streamError) (Writer.flush turns)

theorem writeRaw_writtenAs {data : α} {slices : List Bytes} (h : WrittenAs data slices) (turns : Nat) :
    (writeRaw turns data : Action (Stop WriteError) ω Unit) =
      writeRaw turns (Packet.mk 0 slices none) := by
  have hwrites : (Packet.toWriter turns ⟨0, slices, none⟩ : Action (Stop WriteError) ω Unit) =
      writeSlices turns slices := bind_pure_unit
  rw [writeRaw, writeRaw, h.each turns, ← hwrites]
  rfl

/-- A packet that is written fits. -/
theorem writeFrame_fits {π χ : Type} [CompressableWriter ω π χ] [PreCompressionWriter π]
    [CompressionWriter χ] {turns : Nat} {threshold : Option Nat} {id : VarInt}
    {packet body : Packet} {w w' : ω} (hbody : plainBody threshold id packet = some body)
    (hok : writeFrame turns threshold id packet w = (.ok (), w')) : body.size ≤ maxPacketSize := by
  obtain ⟨body', hbody', hmax, -⟩ | ⟨hnone, -⟩ := writeFrame_ok hok
  · cases hbody.symm.trans hbody'
    exact hmax
  · cases hbody.symm.trans hnone

end Writer

/-! ### One call -/

/-- Bytes on the stream: as they are, or in a cipher. -/
def wire : Mealy (Option Cfb8) Byte Byte := Cfb8.encryptor.optional

@[simp] theorem wire_output_none (bytes : Bytes) : wire.output none bytes = bytes :=
  Mealy.optional_output_none _ _

@[simp] theorem wire_after_none (bytes : Bytes) : wire.after none bytes = none :=
  Mealy.optional_after_none _ _

@[simp] theorem wire_output_some (s : Cfb8) (bytes : Bytes) :
    wire.output (some s) bytes = Cfb8.encryptor.output s bytes :=
  Mealy.optional_output_some _ _ _

@[simp] theorem wire_after_some (s : Cfb8) (bytes : Bytes) :
    wire.after (some s) bytes = some (Cfb8.encryptor.after s bytes) :=
  Mealy.optional_after_some _ _ _

namespace ProviderWriter
variable {κ ω : Type}

def cipher : ProviderWriter κ ω → Option Cfb8
  | sync ⟨_, .standard _⟩ => none
  | sync ⟨_, .encrypt e⟩ => some e.encryptor
  | async ⟨_, .standard _⟩ => none
  | async ⟨_, .encrypt e⟩ => some e.encryptor

/-- Nothing is in the buffer. -/
def Drained : ProviderWriter κ ω → Prop
  | sync w => w.buffer = []
  | async w => w.writer.Unused

/-- `with_encryption`; `None` where it panics. -/
def withEncryption (aes : Block → Block → Block) (key : Block) :
    ProviderWriter κ ω → Option (ProviderWriter κ ω)
  | sync w => (w.withEncryption aes key).map sync
  | async w => (w.writer.withEncryption aes key).map fun writer => async {w with writer := writer}

/-- `write_raw` and `async_write_raw`. -/
def writeRaw [Deflate κ] [Write ω] [AsyncWrite ω] {α : Type} [ToWriter α] (turns : Nat) (data : α) :
    Action (Stop WriteError) (ProviderWriter κ ω) Unit := fun w =>
  match w with
  | sync w => ((Protocraft.writeRaw turns data w).1, sync (Protocraft.writeRaw turns data w).2)
  | async w => ((Protocraft.writeRaw turns data w).1, async (Protocraft.writeRaw turns data w).2)

def writeLegacy1_6PingResponse [Deflate κ] [Write ω] [AsyncWrite ω] (turns : Nat)
    (response : Legacy1_6PingResponse) : Action (Stop WriteError) (ProviderWriter κ ω) Unit :=
  writeRaw turns response

def writeLegacy1_3PingResponse [Deflate κ] [Write ω] [AsyncWrite ω] (turns : Nat)
    (response : Legacy1_3PingResponse) : Action (Stop WriteError) (ProviderWriter κ ω) Unit :=
  writeRaw turns response

/-- From `w` to `w'` the sink got what becomes of `bytes`, and none of it is left behind. -/
structure Sent (received : ω → Bytes) (w w' : ProviderWriter κ ω) (bytes : Bytes) : Prop where
  drained : w'.Drained
  sink : received w'.sink = received w.sink ++ wire.output w.cipher bytes
  cipher : w'.cipher = wire.after w.cipher bytes

section Sent
variable [Write ω] [AsyncWrite ω] {received visible : ω → Bytes}

omit [AsyncWrite ω] in
/-- The blocking writer, flushed. -/
theorem sync_sent (hlawful : Lawful received) {w w₁ w' : DefaultWriter κ ω} {bytes : Bytes}
    (hw : w.Emitted received w₁ bytes) (hflush : Write.flush w₁ = (.ok (), w')) :
    Sent received (sync w) (sync w') bytes := by
  have hflush' : Writer.flush 0 w₁ = (.ok (), w') := mapError_ok hflush
  have hemitted := (DefaultWriter.emits hlawful).flush hw hflush'
  have hsink := hw.flushed hlawful hflush
  obtain ⟨k, b | e⟩ := w <;> obtain ⟨k', b' | e'⟩ := w' <;> try exact hemitted.elim
  · obtain ⟨done, hdelivering⟩ := hemitted
    have hplain : Staged.encoded b.encryptor bytes = bytes := Mealy.identity_output _ _
    have hsink' : received b'.writer = received b.writer ++ Staged.encoded b.encryptor bytes := hsink
    obtain ⟨hbuffer, -⟩ := hdelivering.all hsink'
    rw [hplain, ← wire_output_none bytes] at hsink'
    exact ⟨hbuffer, hsink', (wire_after_none bytes).symm⟩
  · obtain ⟨done, hdelivering⟩ := hemitted
    have hsink' : received e'.writer =
        received e.writer ++ Cfb8.encryptor.output e.encryptor bytes := hsink
    obtain ⟨hbuffer, hcipher⟩ := hdelivering.all hsink'
    rw [← wire_output_some] at hsink'
    exact ⟨hbuffer, hsink', (congrArg some hcipher).trans (wire_after_some ..).symm⟩

omit [Write ω] in
/-- A polled one. -/
theorem async_sent (hhides : AsyncHides received visible) {k k' : κ}
    {w w₁ w' : AsyncDefaultWriter ω} {bytes : Bytes} (hw : w.Emitted received visible w₁ bytes)
    (hflush : AsyncDefaultWriter.polls.flush w₁ (.ready (.ok ())) w') :
    Sent received (async ⟨k, w⟩) (async ⟨k', w'⟩) bytes := by
  obtain ⟨hsink, -⟩ := hw.flushed hhides hflush
  cases w <;> cases w₁ <;> cases w' <;> first | exact hw.elim | exact hflush.elim | skip
  · rename_i b b₁ b'
    obtain ⟨-, hdone⟩ := (AsyncStaged.Hidden.toDelivering hw).pollFlush hhides.toAsyncTakes hflush
    have hplain : InPlace.machine.output b.encryptor bytes = bytes := Mealy.identity_output _ _
    have hsink' : received b'.writer =
        received b.writer ++ InPlace.machine.output b.encryptor bytes := hsink
    rw [hplain, ← wire_output_none bytes] at hsink'
    exact ⟨hdone rfl, hsink', (wire_after_none bytes).symm⟩
  · rename_i e e₁ e'
    obtain ⟨hdelivering, hdone⟩ :=
      (AsyncStaged.Hidden.toDelivering hw).pollFlush hhides.toAsyncTakes hflush
    obtain ⟨hstate, hbuffer⟩ := hdone rfl
    have hsink' : received e'.writer =
        received e.writer ++ Cfb8.encryptor.output e.encryptor bytes := hsink
    have hencrypted := hdelivering.state
    simp only [AsyncStaged.encrypted, hstate, hbuffer, List.append_nil] at hencrypted
    obtain ⟨done, rfl, hcipher⟩ := hencrypted
    rw [← wire_output_some] at hsink'
    exact ⟨hdone rfl, hsink', (congrArg some hcipher).trans (wire_after_some ..).symm⟩

variable [Deflate κ]

theorem writePacket_sent (hhides : Hides received visible) (hasync : AsyncHides received visible)
    {turns : Nat} {threshold : Option Nat} {id : I32} {packet : Packet} {w w' : ProviderWriter κ ω}
    (hw : w.Drained) (hok : w.writePacket turns threshold id packet = (.ok (), w')) :
    ∃ compressed, Sent received w w' (frameBytes threshold ⟨id⟩ packet compressed) ∧
      ∀ body, plainBody threshold ⟨id⟩ packet = some body → body.size ≤ maxPacketSize := by
  cases w with
  | sync w =>
    obtain ⟨hreply, rfl⟩ := Prod.mk.inj hok
    obtain ⟨_, w₁, hframe, hflush⟩ := ok_of_bind (replied hreply)
    obtain ⟨compressed, hw₁⟩ := (DefaultWriter.carries hhides.toLawful w).writeFrame (.fresh hw) hframe
    exact ⟨compressed, sync_sent hhides.toLawful hw₁ (ok_of_mapError (ok_of_mapError hflush)),
      fun _ hbody => writeFrame_fits hbody hframe⟩
  | async w =>
    obtain ⟨hreply, rfl⟩ := Prod.mk.inj hok
    obtain ⟨_, w₁, hframe, hflush⟩ := ok_of_bind (replied hreply)
    have hpolled := AsyncDefaultWriter.polled hasync w.writer
    obtain ⟨compressed, hw₁⟩ := (TokioWriter.carries hpolled).writeFrame (.unused hw) hframe
    obtain ⟨v, hv, hpoll⟩ := TokioWriter.flush_ok hpolled hw₁ (ok_of_mapError hflush)
    exact ⟨compressed, async_sent hasync hv (AsyncDefaultWriter.polls_flush hpoll),
      fun _ hbody => writeFrame_fits hbody hframe⟩

theorem writeRaw_sent (hhides : Hides received visible) (hasync : AsyncHides received visible)
    {turns : Nat} {data : Packet} {w w' : ProviderWriter κ ω} (hw : w.Drained)
    (hok : w.writeRaw turns data = (.ok (), w')) : Sent received w w' data.bytes := by
  cases w with
  | sync w =>
    obtain ⟨hreply, rfl⟩ := Prod.mk.inj hok
    obtain ⟨_, w₁, hwrite, hflush⟩ := ok_of_bind (replied hreply)
    have hw₁ := (DefaultWriter.emits hhides.toLawful).packet (DefaultWriter.Emitted.fresh hw) hwrite
    exact sync_sent hhides.toLawful hw₁ (ok_of_mapError (ok_of_mapError hflush))
  | async w =>
    obtain ⟨hreply, rfl⟩ := Prod.mk.inj hok
    obtain ⟨_, w₁, hwrite, hflush⟩ := ok_of_bind (replied hreply)
    have hpolled := AsyncDefaultWriter.polled hasync w.writer
    have hw₁ := (TokioWriter.emits hpolled).packet (AsyncDefaultWriter.Emitted.unused hw) hwrite
    obtain ⟨v, hv, hpoll⟩ := TokioWriter.flush_ok hpolled hw₁ (ok_of_mapError hflush)
    exact async_sent hasync hv (AsyncDefaultWriter.polls_flush hpoll)

end Sent
end ProviderWriter

/-! ### Runs -/

/-- What the owner of a provider has it write, and the switch in between. -/
inductive Output where
  | packet (threshold : Option Nat) (id : I32) (packet : Packet)
  | raw (data : Packet)
  | withEncryption (key : Block)

/-- It needs no compressor. -/
def Output.Uncompressed : Output → Prop
  | .packet threshold id payload => plainBody threshold ⟨id⟩ payload ≠ none
  | .raw _ => True
  | .withEncryption _ => True

/-- What comes out for a run: each packet as a frame, data as it is, and a switch as nothing. -/
inductive OnWire (aes : Block → Block → Block) : Option Cfb8 → List Output → Bytes → Prop
  | nil {cipher : Option Cfb8} : OnWire aes cipher [] []
  | packet {cipher : Option Cfb8} {threshold : Option Nat} {id : I32} {packet : Packet}
      {compressed : Nat × Bytes} {rest : List Output} {bytes : Bytes}
      (h : OnWire aes (wire.after cipher (frameBytes threshold ⟨id⟩ packet compressed)) rest bytes) :
    OnWire aes cipher (.packet threshold id packet :: rest)
      (wire.output cipher (frameBytes threshold ⟨id⟩ packet compressed) ++ bytes)
  | raw {cipher : Option Cfb8} {data : Packet} {rest : List Output} {bytes : Bytes}
      (h : OnWire aes (wire.after cipher data.bytes) rest bytes) :
    OnWire aes cipher (.raw data :: rest) (wire.output cipher data.bytes ++ bytes)
  | withEncryption {key : Block} {rest : List Output} {bytes : Bytes}
      (h : OnWire aes (some (.new aes key)) rest bytes) :
    OnWire aes none (.withEncryption key :: rest) bytes

/-- Without a compressor there is one way to write it. -/
theorem OnWire.unique {aes : Block → Block → Block} {outputs : List Output} {cipher : Option Cfb8}
    {bytes bytes' : Bytes} (hplain : ∀ output ∈ outputs, output.Uncompressed)
    (h : OnWire aes cipher outputs bytes) (h' : OnWire aes cipher outputs bytes') :
    bytes = bytes' := by
  induction h generalizing bytes' with
  | nil =>
    cases h'
    rfl
  | @packet cipher threshold id packet compressed rest bytes _ ih =>
    obtain ⟨hfirst, hrest⟩ := List.forall_mem_cons.mp hplain
    obtain ⟨body, hbody⟩ := Option.ne_none_iff_exists'.mp hfirst
    have hframe : ∀ compressed,
        frameBytes threshold ⟨id⟩ packet compressed = (body.behind (.ofNat body.size)).bytes := by
      intro compressed
      simp only [frameBytes, hbody]
    cases h' with
    | packet h' =>
      rw [hframe] at h'
      rw [hframe, hframe, ih hrest (by rwa [hframe])]
  | raw _ ih =>
    cases h' with
    | raw h' => rw [ih (List.forall_mem_cons.mp hplain).2 h']
  | withEncryption _ ih =>
    cases h' with
    | withEncryption h' => exact ih (List.forall_mem_cons.mp hplain).2 h'

namespace ProviderWriter
variable {κ ω : Type} [Deflate κ] [Write ω] [AsyncWrite ω]

/-- The calls of a run, as long as they succeed. -/
def puts (aes : Block → Block → Block) (turns : Nat) :
    List Output → ProviderWriter κ ω → Option (ProviderWriter κ ω)
  | [], w => some w
  | .packet threshold id packet :: rest, w => match w.writePacket turns threshold id packet with
    | (.ok (), w') => puts aes turns rest w'
    | (.error _, _) => none
  | .raw data :: rest, w => match w.writeRaw turns data with
    | (.ok (), w') => puts aes turns rest w'
    | (.error _, _) => none
  | .withEncryption key :: rest, w => (w.withEncryption aes key).bind (puts aes turns rest)

variable {received visible : ω → Bytes} {aes : Block → Block → Block} {w w' : ProviderWriter κ ω}

omit [Deflate κ] [Write ω] [AsyncWrite ω] in
theorem withEncryption_fresh {key : Block} (h : w.withEncryption aes key = some w') :
    w.cipher = none ∧ w'.cipher = some (.new aes key) ∧ w'.Drained ∧ w'.sink = w.sink := by
  obtain ⟨k, b | e⟩ | ⟨k, b | e⟩ := w <;> cases h
  · exact ⟨rfl, rfl, rfl, rfl⟩
  · exact ⟨rfl, rfl, ⟨rfl, rfl⟩, rfl⟩

/-- **Whole runs come out call by call**: what the sink gets is the calls' own bytes in their order,
and nothing waits in a buffer. -/
theorem puts_sent (hhides : Hides received visible) (hasync : AsyncHides received visible) {turns : Nat}
    {outputs : List Output} (hw : w.Drained) (h : puts aes turns outputs w = some w') :
    w'.Drained ∧ ∃ bytes, OnWire aes w.cipher outputs bytes ∧
      received w'.sink = received w.sink ++ bytes := by
  induction outputs generalizing w with
  | nil =>
    cases h
    exact ⟨hw, [], .nil, (List.append_nil _).symm⟩
  | cons output rest ih =>
    cases output with
    | packet threshold id packet =>
      rcases hcall : w.writePacket turns threshold id packet with ⟨e | _, w₁⟩ <;>
        simp only [puts, hcall] at h
      · cases h
      · obtain ⟨compressed, hsent, -⟩ := writePacket_sent hhides hasync hw hcall
        obtain ⟨hdrained, bytes, hbytes, hsink⟩ := ih hsent.drained h
        rw [hsent.cipher] at hbytes
        exact ⟨hdrained, _, .packet hbytes, by rw [hsink, hsent.sink, List.append_assoc]⟩
    | raw data =>
      rcases hcall : w.writeRaw turns data with ⟨e | _, w₁⟩ <;> simp only [puts, hcall] at h
      · cases h
      · have hsent := writeRaw_sent hhides hasync hw hcall
        obtain ⟨hdrained, bytes, hbytes, hsink⟩ := ih hsent.drained h
        rw [hsent.cipher] at hbytes
        exact ⟨hdrained, _, .raw hbytes, by rw [hsink, hsent.sink, List.append_assoc]⟩
    | withEncryption key =>
      obtain ⟨w₁, hswitch, hrest⟩ := Option.bind_eq_some_iff.mp h
      obtain ⟨hplain, hcipher, hempty, hsame⟩ := withEncryption_fresh hswitch
      obtain ⟨hdrained, bytes, hbytes, hsink⟩ := ih hempty hrest
      rw [hcipher] at hbytes
      rw [hplain]
      exact ⟨hdrained, bytes, .withEncryption hbytes, by rw [hsink, hsame]⟩

end ProviderWriter

/-- **All providers write the same.** Two providers, each blocking or polled, over whatever
compressor and transport, with the same calls of which none is compressed: what they put on their
streams is the same. -/
theorem providers_agree {κ κ' ω ω' : Type} [Deflate κ] [Deflate κ'] [Write ω] [AsyncWrite ω] [Write ω']
    [AsyncWrite ω'] {received visible : ω → Bytes} {received' visible' : ω' → Bytes}
    (hhides : Hides received visible) (hasync : AsyncHides received visible)
    (hhides' : Hides received' visible') (hasync' : AsyncHides received' visible')
    {aes : Block → Block → Block} {outputs : List Output}
    (hplain : ∀ output ∈ outputs, output.Uncompressed) {w v : ProviderWriter κ ω}
    {w' v' : ProviderWriter κ' ω'} (hw : w.Drained) (hw' : w'.Drained)
    (hsame : w.cipher = w'.cipher) {turns turns' : Nat} (h : w.puts aes turns outputs = some v)
    (h' : w'.puts aes turns' outputs = some v') :
    ∃ bytes, received v.sink = received w.sink ++ bytes ∧
      received' v'.sink = received' w'.sink ++ bytes := by
  obtain ⟨-, bytes, hbytes, hsink⟩ := ProviderWriter.puts_sent hhides hasync hw h
  obtain ⟨-, bytes', hbytes', hsink'⟩ := ProviderWriter.puts_sent hhides' hasync' hw' h'
  rw [← hsame] at hbytes'
  obtain rfl := hbytes.unique hplain hbytes'
  exact ⟨bytes, hsink, hsink'⟩

/-- A packet, the start of an answer and a packet in cipher: through a buffer of one byte, and
through a large one. -/
theorem providers_agree_buffered :
    let aes : Block → Block → Block := fun _ _ _ => 1
    let packet : Packet := ⟨1, [[7]], none⟩
    let outputs : List Output :=
      [.packet none 0 packet, .raw ⟨0, [[255], [0, 7]], none⟩, .withEncryption fun _ => 0,
        .packet (some 9) 5 packet]
    let compressor : Stored.Deflater := ⟨false, false, [], Stored.adlerStart, [], Stored.start⟩
    let blocking : ProviderWriter Stored.Deflater Held := .sync (.new compressor ⟨[], []⟩ 1)
    let polled : ProviderWriter Stored.Deflater Held := .async ⟨compressor, .new ⟨[], []⟩ 64⟩
    ∃ v v', blocking.puts aes 9 outputs = some v ∧ polled.puts aes 9 outputs = some v' ∧
      ∃ bytes, v.sink.received = blocking.sink.received ++ bytes ∧
        v'.sink.received = polled.sink.received ++ bytes := by
  intro aes packet outputs compressor blocking polled
  have hblocking : (blocking.puts aes 9 outputs).isSome := by decide +kernel
  have hpolled : (polled.puts aes 9 outputs).isSome := by decide +kernel
  obtain ⟨v, hv⟩ := Option.isSome_iff_exists.mp hblocking
  obtain ⟨v', hv'⟩ := Option.isSome_iff_exists.mp hpolled
  have hplain : ∀ output ∈ outputs, output.Uncompressed := by
    simp only [outputs, List.forall_mem_cons]
    exact ⟨Option.some_ne_none _, trivial, trivial, Option.some_ne_none _, by simp⟩
  exact ⟨v, v', hv, hv', providers_agree Held.hides Held.asyncHides Held.hides Held.asyncHides hplain
    (show blocking.Drained from rfl) (show polled.Drained from ⟨rfl, rfl⟩) rfl hv hv'⟩

/-! ### The answer to a legacy ping -/

section Answer
variable {κ ω : Type} [Deflate κ] [Write ω] [AsyncWrite ω] {received visible : ω → Bytes}

omit [Deflate κ] [AsyncWrite ω] in
/-- Data that does not fail on its own is written. -/
theorem writeRaw_fits (h : Reliable ω) (turns : Nat) {data : Packet} (hwritten : data.failure = none)
    {w : DefaultWriter κ ω} (hw : 0 < w.capacity) : ∃ w', writeRaw turns data w = (.ok (), w') := by
  obtain ⟨w₁, heach, hw₁⟩ := Reliably.each (DefaultWriter.reliably h) turns data.writes hw
  obtain ⟨w', hflush, -⟩ := (DefaultWriter.reliably h).flushes hw₁
  have hwrite : ToWriter.toWriter turns data w = (.ok (), w₁) := Packet.toWriter_ok hwritten heach
  refine ⟨w', ?_⟩
  rw [writeRaw, bind_ok hwrite]
  exact mapError_ok (mapError_ok hflush)

/-- Where writing to `w` led to `reply`: the sink got these units, announced, and on a blocking
transport that never fails it led there. -/
structure Answered (received : ω → Bytes) (limit : Nat) (units : List Utf16.CodeUnit)
    (w : ProviderWriter κ ω) (reply : Except (Stop WriteError) Unit × ProviderWriter κ ω) :
    Prop where
  sent : reply.1 = .ok () → ∃ bytes, Announced limit units bytes ∧ w.Sent received reply.2 bytes
  succeeds : Reliable ω → ∀ v, w = .sync v → 0 < v.capacity → reply.1 = .ok ()

theorem answered (hhides : Hides received visible) (hasync : AsyncHides received visible) {α : Type}
    [ToWriter α] [Sliced α] {limit : Nat} {units : List Utf16.CodeUnit} {response : α}
    (h : Announced limit units (written response)) (turns : Nat) {w : ProviderWriter κ ω}
    (hw : w.Drained) : Answered received limit units w (w.writeRaw turns response) := by
  have hslices : w.writeRaw turns response = w.writeRaw turns (Packet.mk 0 (slices response) none) := by
    cases w <;> simp only [ProviderWriter.writeRaw, writeRaw_writtenAs (Sliced.writes response)]
  rw [hslices]
  constructor
  · intro hreply
    exact ⟨_, h, ProviderWriter.writeRaw_sent hhides hasync hw (replied hreply)⟩
  · rintro hreliable v rfl hroom
    have hwritten : (Packet.mk 0 (slices response) none).failure = none := rfl
    obtain ⟨v', hok⟩ := writeRaw_fits hreliable turns hwritten hroom
    exact congrArg Prod.fst hok

/-- **A legacy ping is answered on every provider**, whatever the threshold and the mode: with no
more and no less than the units of the response behind their number. -/
theorem legacy_ping_answered (hhides : Hides received visible)
    (hasync : AsyncHides received visible) (turns : Nat) {w : ProviderWriter κ ω} (hw : w.Drained) :
    (∀ {motd playerCount maxPlayers r}, Legacy1_3PingResponse.new motd playerCount maxPlayers = some r →
      Answered received 256 (Legacy1_3PingResponse.units [motd, playerCount, maxPlayers]) w
        (w.writeLegacy1_3PingResponse turns r)) ∧
    ∀ {serverVersion motd playerCount maxPlayers r},
      Legacy1_6PingResponse.new serverVersion motd playerCount maxPlayers = some r →
      Answered received 32767
        (Legacy1_6PingResponse.units [serverVersion, motd, playerCount, maxPlayers]) w
        (w.writeLegacy1_6PingResponse turns r) := by
  have hearly : Sliced Legacy1_3PingResponse := .of Legacy1_3PingResponse.writtenAs
  have hlate : Sliced Legacy1_6PingResponse := .of Legacy1_6PingResponse.writtenAs
  constructor
  · intro motd playerCount maxPlayers r h
    exact answered hhides hasync ((Legacy1_3PingResponse.accepted ..).2 h).1 turns hw
  · intro serverVersion motd playerCount maxPlayers r h
    exact answered hhides hasync ((Legacy1_6PingResponse.accepted ..).2 h).1 turns hw

end Answer

/-- The oldest answer, polled, and the later one in a single byte of buffer. -/
theorem legacy_ping_answered_held :
    let compressor : Stored.Deflater := ⟨false, false, [], Stored.adlerStart, [], Stored.start⟩
    let polled : ProviderWriter Stored.Deflater Held := .async ⟨compressor, .new ⟨[], []⟩ 64⟩
    let blocking : ProviderWriter Stored.Deflater Held := .sync (.new compressor ⟨[], []⟩ 1)
    (∃ r v bytes, Legacy1_3PingResponse.new "Hi" "1" "20" = some r ∧
      polled.writeLegacy1_3PingResponse 9 r = (.ok (), v) ∧ v.sink.received = bytes ∧
      Announced 256 (Legacy1_3PingResponse.units ["Hi", "1", "20"]) bytes) ∧
    ∃ r v bytes, Legacy1_6PingResponse.new "1.6.4" "Hi" "1" "20" = some r ∧
      blocking.writeLegacy1_6PingResponse 9 r = (.ok (), v) ∧ v.sink.received = bytes ∧
      Announced 32767 (Legacy1_6PingResponse.units ["1.6.4", "Hi", "1", "20"]) bytes := by
  intro compressor polled blocking
  have hpolled : polled.Drained := ⟨rfl, rfl⟩
  have hblocking : blocking.Drained := rfl
  obtain ⟨hearly, -⟩ := legacy_ping_answered Held.hides Held.asyncHides 9 hpolled
  obtain ⟨-, hlate⟩ := legacy_ping_answered Held.hides Held.asyncHides 9 hblocking
  constructor
  · have hok : (polled.writeLegacy1_3PingResponse 9 ⟨"Hi", "1", "20", 7⟩).1 = .ok () := by decide +kernel
    obtain ⟨bytes, hannounced, hsent⟩ := (@hearly "Hi" "1" "20" _ rfl).sent hok
    exact ⟨_, _, bytes, rfl, replied hok, hsent.sink.trans (wire_output_none bytes), hannounced⟩
  · have hok : (blocking.writeLegacy1_6PingResponse 9 ⟨"1.6.4", "Hi", "1", "20", 20⟩).1 =
        .ok () := by decide +kernel
    obtain ⟨bytes, hannounced, hsent⟩ := (@hlate "1.6.4" "Hi" "1" "20" _ rfl).sent hok
    exact ⟨_, _, bytes, rfl, replied hok, hsent.sink.trans (wire_output_none bytes), hannounced⟩

end Protocraft
