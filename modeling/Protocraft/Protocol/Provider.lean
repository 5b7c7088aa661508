import Protocraft.Defaults.Reader
import Protocraft.Protocol.Read
import Protocraft.Stream.Stored

/-! The provider, and where in the incoming stream decryption begins.

`with_encryption` puts the decrypting reader under the buffer: what is in the buffer by then
has passed it by. The stream is cut where the last packet read ends just when nothing was
read ahead (`decryption_exact_iff`). The provider for polled streams is put together the same
way. -/
namespace Protocraft
open Protocraft.Stream

structure DefaultStreamProvider (κ ι ρ ω : Type) where
  reader : BufReader (DefaultReader ρ)
  writer : DefaultWriter κ ω
  compressionThreshold : Option Nat
  decompressionState : ι

namespace DefaultStreamProvider
variable {κ ι ρ ω : Type}

def new (reader : ρ) (writer : ω) (compressionState : κ) (decompressionState : ι) (bufferSize : Nat) :
    DefaultStreamProvider κ ι ρ ω :=
  ⟨⟨.standard reader, [], bufferSize⟩, .new compressionState writer bufferSize, none, decompressionState⟩

/-- `None` where the source panics. -/
def withEncryption (aes : Block → Block → Block) (key : Block) (p : DefaultStreamProvider κ ι ρ ω) :
    Option (DefaultStreamProvider κ ι ρ ω) := do
  let inner ← p.reader.inner.withEncryption aes key
  let writer ← p.writer.withEncryption aes key
  return {p with reader := {p.reader with inner := inner}, writer := writer}

def setCompressionThreshold (threshold : Option Nat) (p : DefaultStreamProvider κ ι ρ ω) :
    DefaultStreamProvider κ ι ρ ω :=
  {p with compressionThreshold := threshold}

def readStream (p : DefaultStreamProvider κ ι ρ ω) :
    DecompressionStateWrappedReader ι (BufReader (DefaultReader ρ)) :=
  ⟨p.decompressionState, p.reader⟩

/-- `ProtocolHandler::read_packet` with this provider. -/
def readPacket [Inflate ι] [Read ρ] {δ α : Type} (S : ProtocolState δ)
    (handlePacket : δ → Program ReadError Nat α) : Action ReadError (DefaultStreamProvider κ ι ρ ω) α :=
  fun p => borrowing readStream
    (fun r p => {p with reader := r.reader, decompressionState := r.decompressionState})
    (Protocraft.readPacket S handlePacket p.compressionThreshold) p

/-! ### Before the switch -/

section Reaches
variable [Inflate ι] [Read ρ]

/-- Packets are read, of any states and under any thresholds, and what is written between
them changes nothing but a writer that does not encrypt. -/
inductive Reaches (start : DefaultStreamProvider κ ι ρ ω) : DefaultStreamProvider κ ι ρ ω → Prop
  | start : Reaches start start
  | read {p : DefaultStreamProvider κ ι ρ ω} (h : Reaches start p) {δ α : Type} (S : ProtocolState δ)
      (handlePacket : δ → Program ReadError Nat α) : Reaches start (p.readPacket S handlePacket).2
  | threshold {p : DefaultStreamProvider κ ι ρ ω} (h : Reaches start p) (threshold : Option Nat) :
      Reaches start (p.setCompressionThreshold threshold)
  | wrote {p : DefaultStreamProvider κ ι ρ ω} (h : Reaches start p) (compressionState : κ)
      (writer : BufferedWriter ω) : Reaches start {p with writer := ⟨compressionState, .standard writer⟩}

end Reaches

/-- Not decrypting yet, and nothing in a buffer of no size. -/
def Plain (b : BufReader (DefaultReader Segments)) : Prop :=
  (∃ t, b.inner = .standard t) ∧ (b.capacity = 0 → b.buffer = [])

theorem Plain.fillBuf : Keeps Plain BufReader.fillBuf := by
  intro s h
  obtain ⟨_, buffer, capacity⟩ := s
  obtain ⟨⟨t, rfl⟩, hcap⟩ := h
  unfold BufReader.fillBuf
  by_cases hbuffer : buffer = []
  · simp only [hbuffer, if_true]
    have hread : Read.read capacity (DefaultReader.standard t) =
      ((Read.read capacity t).1, .standard (Read.read capacity t).2) := rfl
    rw [hread]
    rcases hinner : Read.read capacity t with ⟨e | bytes, t'⟩
    · exact ⟨⟨t', rfl⟩, fun _ => rfl⟩
    · obtain ⟨c', -, hlength, -⟩ := Segments.tracks.ok (show t.Holds _ from rfl) hinner
      refine ⟨⟨t', rfl⟩, fun hzero => List.length_eq_zero_iff.mp ?_⟩
      exact Nat.le_zero.mp (Nat.le_trans hlength (Nat.le_of_eq hzero))
  · simp only [hbuffer, if_false]
    exact ⟨⟨t, rfl⟩, hcap⟩

theorem Plain.consume {b : BufReader (DefaultReader Segments)} (h : Plain b) (k : Nat) :
    Plain (b.consume k) :=
  ⟨h.1, fun hzero => by simp [BufReader.consume, h.2 hzero]⟩

theorem Plain.read (n : Nat) : Keeps Plain (BufReader.read n) := by
  intro b hb
  unfold BufReader.read
  by_cases hbypass : b.buffer = [] ∧ b.capacity ≤ n
  · obtain ⟨⟨t, ht⟩, -⟩ := hb
    have hread : Read.read n (DefaultReader.standard t) =
      ((Read.read n t).1, .standard (Read.read n t).2) := rfl
    rw [if_pos hbypass, ht, hread]
    rcases Read.read n t with ⟨e | bytes, t'⟩ <;> exact ⟨⟨t', rfl⟩, fun _ => rfl⟩
  · have hfill := Plain.fillBuf b hb
    rw [if_neg hbypass]
    rcases hreply : BufReader.fillBuf b with ⟨e | buf, b'⟩ <;> rw [hreply] at hfill
    · exact hfill
    · exact hfill.consume n

theorem Plain.kept : Kept Plain := ⟨Plain.read, Plain.fillBuf, fun k h => h.consume k⟩

/-- What can be reached is plain, and has a writer to switch. -/
theorem Reaches.plain [Inflate ι] {start p : DefaultStreamProvider κ ι Segments ω}
    (hreach : Reaches start p) (hreader : Plain start.reader)
    (hwriter : ∃ b, start.writer.writer = .standard b) :
    Plain p.reader ∧ ∃ b, p.writer.writer = .standard b := by
  induction hreach with
  | start => exact ⟨hreader, hwriter⟩
  | read _ S handlePacket ih => exact ⟨readFrame_keeps Plain.kept S handlePacket _ _ ih.1, ih.2⟩
  | threshold _ _ ih => exact ih
  | wrote _ _ writer ih => exact ⟨ih.1, writer, rfl⟩

/-! ### The cut -/

/-- A reader that has been switched sees its buffer as it is, and the rest decrypted. -/
theorem switched_sees (cipher : Cfb8) {t : Segments} {buffer : Bytes} {capacity : Nat}
    (hcap : capacity = 0 → buffer = []) :
    (BufReader.mk (.decrypt ⟨cipher, t⟩) buffer capacity : BufReader (DefaultReader Segments)).Sees
      (buffer ++ Cfb8.decryptor.output cipher t.segments.flatten) :=
  @BufReader.sees _ _ _ (DefaultReader.delivers Segments.delivers)
    (BufReader.mk (.decrypt ⟨cipher, t⟩) buffer capacity) _ hcap ⟨_, rfl, rfl⟩

/-- Under every key stream the bytes read ahead pass for decrypted only if there are none. -/
theorem undecrypted_eq_iff (buffer behind rest : Bytes) :
    (∀ aes key, buffer ++ Cfb8.decryptor.output (.new aes key) behind =
        Cfb8.decryptor.output (.new aes key) rest) ↔ buffer = [] ∧ behind = rest := by
  constructor
  · intro h
    have hplain : buffer ++ behind = rest := by
      simpa [Cfb8.new, Cfb8.constant_output] using h (fun _ _ _ => 0#8) fun _ => 0
    have hmasked := h (fun _ _ _ => 1) fun _ => 0
    simp only [Cfb8.new, Cfb8.constant_output] at hmasked
    rw [← hplain, List.map_append] at hmasked
    cases buffer with
    | nil => exact ⟨rfl, hplain⟩
    | cons b buffer =>
      have hhead : b = b ^^^ 1 := (List.cons.inj hmasked).1
      have hbit : b.getLsbD 0 = !b.getLsbD 0 := by
        simpa using congrArg (fun b : Byte => b.getLsbD 0) hhead
      cases hb : b.getLsbD 0 <;> rw [hb] at hbit <;> cases hbit
  · intro h aes key
    obtain ⟨rfl, rfl⟩ := h
    rfl

/-- **Decryption begins where the last packet read ends just when nothing of the stream was
read ahead.** From a new provider, with a buffer of any size, on a transport that hands over
the stream in any pieces: whatever was read before the switch, what is read after it is the
decryption of `rest`, under any cipher and key, just when the buffer is empty at the switch
and the transport still has exactly `rest`. -/
theorem decryption_exact_iff [Inflate ι] (transport : Segments) (writer : ω) (compressionState : κ)
    (decompressionState : ι) (bufferSize : Nat) {p : DefaultStreamProvider κ ι Segments ω}
    (hreach : Reaches (new transport writer compressionState decompressionState bufferSize) p)
    (rest : Bytes) :
    (∀ aes key, ∃ q, p.withEncryption aes key = some q ∧
        q.readStream.reader.Sees (Cfb8.decryptor.output (.new aes key) rest)) ↔
      p.reader.buffer = [] ∧ p.reader.inner.source.Holds rest := by
  obtain ⟨⟨⟨t, ht⟩, hcap⟩, b, hb⟩ := hreach.plain ⟨⟨transport, rfl⟩, fun _ => rfl⟩ ⟨_, rfl⟩
  have hswitch : ∀ aes key, p.withEncryption aes key =
      some {p with
        reader := {p.reader with inner := .decrypt ⟨.new aes key, t⟩}
        writer := {p.writer with writer := .encrypt ⟨.new aes key, b.writer, [], b.capacity⟩}} := by
    intro aes key
    rw [withEncryption, ht, DefaultWriter.withEncryption, hb]
    rfl
  have hsees := fun aes key => switched_sees (.new aes key) (t := t) hcap
  rw [ht]
  show _ ↔ p.reader.buffer = [] ∧ t.segments.flatten = rest
  rw [← undecrypted_eq_iff]
  constructor
  · intro h aes key
    obtain ⟨q, hq, hqsees⟩ := h aes key
    obtain rfl := Option.some.inj ((hswitch aes key).symm.trans hq)
    exact (hsees aes key).unique hqsees
  · intro h aes key
    refine ⟨_, hswitch aes key, ?_⟩
    rw [← h]
    exact hsees aes key

/-- The peer waits with its ciphertext for the packet before to be read. -/
theorem decryption_exact_separate :
    let S : ProtocolState Unit := ⟨"play", fun id => if id = 0 then some () else none⟩
    let transport : Segments := ⟨[[2, 0, 7], [3, 1, 6]], by decide⟩
    let start : DefaultStreamProvider Unit Stored.Inflater Segments Collected :=
      new transport ⟨[]⟩ () ⟨Stored.start, []⟩ 64
    let p := (start.readPacket S fun _ => readU8).2
    ∀ aes key, ∃ q, p.withEncryption aes key = some q ∧
      q.readStream.reader.Sees (Cfb8.decryptor.output (.new aes key) [3, 1, 6]) := by
  intro S transport start p
  have hreach : Reaches start p := .read .start S _
  refine (decryption_exact_iff transport ⟨[]⟩ () ⟨Stored.start, []⟩ 64 hreach [3, 1, 6]).mpr ⟨?_, ?_⟩
  · decide +kernel
  · show p.reader.inner.source.segments.flatten = [3, 1, 6]
    decide +kernel

/-- Here it does not, and what is read ahead is never decrypted: a packet `[0, 7]` is taken
for one with the id that its ciphertext has. -/
theorem decryption_skips_buffer :
    let S : ProtocolState Unit := ⟨"play", fun id => if id = 0 then some () else none⟩
    let aes : Block → Block → Block := fun _ _ _ => 1
    let key : Block := fun _ => 0
    let encrypted := Cfb8.encryptor.output (.new aes key) [2, 0, 7]
    let transport : Segments := ⟨[[2, 0, 7] ++ encrypted], by decide⟩
    let start : DefaultStreamProvider Unit Stored.Inflater Segments Collected :=
      new transport ⟨[]⟩ () ⟨Stored.start, []⟩ 64
    let p := (start.readPacket S fun _ => readU8).2
    (start.readPacket S fun _ => readU8).1 = .ok 7 ∧
    ((p.withEncryption aes key).map fun q => (q.readPacket S fun _ => readU8).1) =
      some (.error (.unknownPacket "play" 1)) ∧
    (Protocraft.readPacket S (fun _ => readU8) none
      (DecompressionStateWrappedReader.mk p.decompressionState
      (Slice.mk (Cfb8.decryptor.output (.new aes key) encrypted)))).1 = .ok 7 := by
  refine ⟨?_, ?_, ?_⟩ <;> decide +kernel

end DefaultStreamProvider

end Protocraft
