import Protocraft.Defaults.AsyncReader
import Protocraft.Protocol.Framing
import Protocraft.Protocol.Provider

/-! Reading packets asynchronously.

`async_read_packet` is written with the text of `read_packet`, over readers that are polled and
handed on by value. On a transport that brings what the blocking one brings, each time it is
awaited to its end it comes to what `read_packet` comes to, whatever has to be waited for in
between; and so do whole runs of a provider, with its threshold set and its encryption switched
on along the way. The two tell an early end of the stream in different words. -/
namespace Protocraft
open Protocraft.Stream
open Program (Rewords)

/-- The error of a polled reader for the error of a blocking one. -/
def ReadError.reworded (early : IoError) : ReadError → ReadError
  | .streamError e => .streamError (Stream.reworded early e)
  | e => e

section Rewords
variable {δ β γ : Type} {early : IoError}

theorem streamError_rewords (reply : Except IoError γ) :
    Rewords (reworded early) (ReadError.reworded early)
      (.done ((reply.mapError (reworded early)).mapError ReadError.streamError) : Program ReadError β γ)
      (.done (reply.mapError ReadError.streamError)) := by
  cases reply with
  | error e => exact .done (.error (ReadError.streamError e))
  | ok x => exact .done (.ok x)

theorem readBytes_rewords (count : Nat) :
    Rewords (reworded early) (ReadError.reworded early) (readBytes count : Program ReadError β Bytes)
      (readBytes count) :=
  .readExact fun reply => streamError_rewords reply

theorem readU8_rewords :
    Rewords (reworded early) (ReadError.reworded early) (readU8 : Program ReadError β Byte) readU8 :=
  (readBytes_rewords 1).bind fun _ => Program.rewords_pure _

theorem VarInt.readSegments_rewords {tooLong : ReadError} (htooLong : tooLong.reworded early = tooLong)
    (offsets : List Nat) (value : BitVec 32) :
    Rewords (reworded early) (ReadError.reworded early)
      (readSegments tooLong offsets value : Program ReadError β _)
        (readSegments tooLong offsets value) := by
  induction offsets generalizing value with
  | nil =>
    have hdone : Rewords (Stream.reworded early) (ReadError.reworded early)
        (.done (.error (tooLong.reworded early)) : Program ReadError β (BitVec 32))
          (.done (.error tooLong)) :=
      .done (.error tooLong)
    rwa [htooLong] at hdone
  | cons offset offsets ih =>
    unfold readSegments
    apply readU8_rewords.bind
    intro b
    dsimp only
    split
    · exact Program.rewords_pure _
    · exact ih _

theorem VarInt.fromReader_rewords :
    Rewords (reworded early) (ReadError.reworded early)
    (fromReader : Program ReadError β VarInt) fromReader :=
  (readSegments_rewords rfl _ _).bind fun _ => Program.rewords_pure _

theorem discardRemaining_rewords :
    Rewords (reworded early) (ReadError.reworded early) discardRemaining discardRemaining :=
  .remaining fun _ => .discard fun reply => streamError_rewords reply

/-- The handler is told what the transport says; what it says itself is a result. -/
theorem handleHelper_rewords (S : ProtocolState δ) (handlePacket : δ → Program ReadError Nat γ) :
    Rewords (reworded early) (ReadError.reworded early) (handleHelper S handlePacket)
      (handleHelper S fun designator => (handlePacket designator).rephrase (reworded early)) := by
  unfold handleHelper
  apply VarInt.fromReader_rewords.bind
  intro id
  cases S.designatorFromId id.value with
  | none => exact Program.rewords_pure _
  | some designator =>
    apply (Program.rephrase_rewords _ _).attempt.bind
    intro result
    exact discardRemaining_rewords.bind fun _ => Program.rewords_pure _

end Rewords

/-! ### `async_read_packet` -/

section Read
variable {δ γ ι α : Type} [Inflate ι] [AsyncRead α] [AsyncBufRead α]
open TokioReader (withBound withDecompression asyncRemaining)

/-- What is read within the bound that the length sets. -/
def asyncReadBody (early : IoError) (turns : Nat) (S : ProtocolState δ)
    (handlePacket : δ → Program ReadError Nat γ) (compressionThreshold : Option Nat) :
    Action (Stop ReadError) (TokioReader ι (Take α)) (Invocation γ) :=
  match compressionThreshold with
  | some _ => do
    let dataLength ← VarInt.fromReader.asyncRun early turns fun _ => ()
    if dataLength.value.toInt < 0 then throw (.error (.negativeLength "uncompressed_size"))
    else if dataLength.value = 0 then (handleHelper S handlePacket).asyncRun early turns asyncRemaining
    else
      withDecompression (taking dataLength.value.toNat
        ((handleHelper S handlePacket).asyncRun early turns Take.limit))
  | none => (handleHelper S handlePacket).asyncRun early turns asyncRemaining

/-- `async_read_packet`, but for the handler's result. -/
def asyncReadFrame (early : IoError) (turns : Nat) (S : ProtocolState δ)
    (handlePacket : δ → Program ReadError Nat γ) (compressionThreshold : Option Nat) :
    Action (Stop ReadError) (TokioReader ι α) (Invocation γ) := do
  let packetLength ← withBound 3 (VarInt.fromReader.asyncRun early turns fun _ => ())
  if packetLength.value.toInt < 0 then throw (.error (.negativeLength "packet_length"))
  else withBound packetLength.value.toNat (asyncReadBody early turns S handlePacket compressionThreshold)

def asyncReadPacket (early : IoError) (turns : Nat) (S : ProtocolState δ)
    (handlePacket : δ → Program ReadError Nat γ) (compressionThreshold : Option Nat) :
    Action (Stop ReadError) (TokioReader ι α) γ := fun r =>
  let (reply, r) := asyncReadFrame early turns S handlePacket compressionThreshold r
  (reply.bind fun invocation => invocation.result.mapError .error, r)

end Read

section Matches
variable {δ γ ι α ρ : Type} [Inflate ι] [AsyncRead α] [AsyncBufRead α] [BufRead ρ] {early : IoError}
  {A : α → ρ → Prop}

/-- What the handler is told of a read, in the words of the polled reader. -/
abbrev told (early : IoError) (handlePacket : δ → Program ReadError Nat γ) (designator : δ) :
    Program ReadError Nat γ :=
  (handlePacket designator).rephrase (reworded early)

theorem readVarInt_matches {σ τ : Type} [AsyncRead σ] [Read τ] {B : σ → τ → Prop}
    (h : Follows early B) : Matches (ReadError.reworded early) B
      (fun turns => VarInt.fromReader.asyncRun early turns fun _ => ()) VarInt.fromReader.onReader :=
  Program.asyncRun_matches h (fun _ => rfl) VarInt.fromReader_rewords

theorem asyncReadBody_matches (hread : Follows early A) (hfill : FollowsFill early A)
    (S : ProtocolState δ) (handlePacket : δ → Program ReadError Nat γ) (threshold : Option Nat) :
    Matches (ReadError.reworded early) (TokioReader.SameState (ι := ι) (Limited A))
      (fun turns => asyncReadBody early turns S handlePacket threshold)
      (readBody S (told early handlePacket) threshold) := by
  have hbound := TokioReader.follows (ι := ι) hread.take
  have hhelper : Rewords (reworded early) (ReadError.reworded early) (handleHelper S handlePacket)
      (handleHelper S (told early handlePacket)) := handleHelper_rewords S handlePacket
  have hplain := Program.asyncRun_matches hbound (fun hr => hr.1.2) hhelper
  cases threshold with
  | none => exact hplain
  | some least =>
    refine (readVarInt_matches hbound).bind fun dataLength => ?_
    by_cases hnegative : dataLength.value.toInt < 0
    · simp only [hnegative, if_true]
      exact matches_throw (ReadError.negativeLength "uncompressed_size")
    · by_cases hzero : dataLength.value = 0
      · simp only [hzero, if_true]
        exact hplain
      · simp only [hnegative, hzero, if_false]
        have hinflating := (AsyncDecompressionReader.follows (ι := ι) hfill.take).take
        have hinflated := Program.asyncRun_matches hinflating (fun hr => hr.2) hhelper
        apply TokioReader.withDecompression_matches
        apply hinflated.borrowing
        · intro a r hr
          exact ⟨hr, rfl⟩
        · intro a r b s _ hb
          exact hb.1

theorem asyncReadFrame_matches (hread : Follows early A) (hfill : FollowsFill early A)
    (S : ProtocolState δ) (handlePacket : δ → Program ReadError Nat γ) (threshold : Option Nat) :
    Matches (ReadError.reworded early) (TokioReader.SameState (ι := ι) A)
      (fun turns => asyncReadFrame early turns S handlePacket threshold)
      (readFrame S (told early handlePacket) threshold) := by
  have hlength := readVarInt_matches (TokioReader.follows (ι := ι) hread.take)
  refine (TokioReader.withBound_matches hlength 3).bind fun packetLength => ?_
  by_cases hnegative : packetLength.value.toInt < 0
  · simp only [hnegative, if_true]
    exact matches_throw (ReadError.negativeLength "packet_length")
  · simp only [hnegative, if_false]
    exact TokioReader.withBound_matches (asyncReadBody_matches hread hfill S handlePacket threshold) _

end Matches

/-! ### A provider, from call to call -/

/-- The provider of tokio, and of futures-io. -/
structure AsyncDefaultStreamProvider (κ ι ρ ω : Type) where
  reader : BufReader (AsyncDefaultReader ρ)
  writer : AsyncDefaultWriter ω
  compressionThreshold : Option Nat
  compressionState : κ
  decompressionState : ι

namespace AsyncDefaultStreamProvider
variable {κ ι α ω δ γ : Type}

def new (reader : α) (writer : ω) (compressionState : κ) (decompressionState : ι) (bufferSize : Nat) :
    AsyncDefaultStreamProvider κ ι α ω :=
  ⟨⟨.standard reader, [], bufferSize⟩, .new writer bufferSize, none, compressionState,
    decompressionState⟩

/-- Panics when the reader or the writer does. -/
def withEncryption (aes : Block → Block → Block) (key : Block) (p : AsyncDefaultStreamProvider κ ι α ω) :
    Option (AsyncDefaultStreamProvider κ ι α ω) := do
  let inner ← p.reader.inner.withEncryption aes key
  let writer ← p.writer.withEncryption aes key
  return {p with reader := {p.reader with inner := inner}, writer := writer}

def setCompressionThreshold (threshold : Option Nat) (p : AsyncDefaultStreamProvider κ ι α ω) :
    AsyncDefaultStreamProvider κ ι α ω :=
  {p with compressionThreshold := threshold}

def asyncReadStream (p : AsyncDefaultStreamProvider κ ι α ω) :
    TokioReader ι (BufReader (AsyncDefaultReader α)) :=
  ⟨p.decompressionState, p.reader⟩

def asyncReadPacket [Inflate ι] [AsyncRead α] (early : IoError) (turns : Nat) (S : ProtocolState δ)
    (handlePacket : δ → Program ReadError Nat γ) :
    Action (Stop ReadError) (AsyncDefaultStreamProvider κ ι α ω) γ :=
  fun p => borrowing asyncReadStream
    (fun r p => {p with reader := r.reader, decompressionState := r.state})
    (Protocraft.asyncReadPacket early turns S handlePacket p.compressionThreshold) p

end AsyncDefaultStreamProvider

/-- What the owner of a provider calls between two writes. -/
inductive ProviderCall (δ γ : Type) where
  | readPacket (S : ProtocolState δ) (handlePacket : δ → Program ReadError Nat γ)
  | setCompressionThreshold (threshold : Option Nat)
  | withEncryption (key : Block)

def ProviderCall.told {δ γ : Type} (early : IoError) : ProviderCall δ γ → ProviderCall δ γ
  | readPacket S handlePacket => readPacket S (Protocraft.told early handlePacket)
  | setCompressionThreshold threshold => setCompressionThreshold threshold
  | withEncryption key => withEncryption key

section Calls
variable {κ κ' ι α ρ ω ω' δ γ : Type} [Inflate ι] [AsyncRead α] [Read ρ]

/-- The replies, and the provider behind the last call, unless one of them panicked. -/
def DefaultStreamProvider.calls (aes : Block → Block → Block) : List (ProviderCall δ γ) →
    DefaultStreamProvider κ ι ρ ω →
      List (Except ReadError (Invocation γ)) × Option (DefaultStreamProvider κ ι ρ ω)
  | [], p => ([], some p)
  | .readPacket S handlePacket :: rest, p =>
    let (reply, r) := readFrame S handlePacket p.compressionThreshold p.readStream
    let (replies, p) :=
      calls aes rest {p with reader := r.reader, decompressionState := r.decompressionState}
    (reply :: replies, p)
  | .setCompressionThreshold threshold :: rest, p => calls aes rest (p.setCompressionThreshold threshold)
  | .withEncryption key :: rest, p => match p.withEncryption aes key with
    | some p => calls aes rest p
    | none => ([], none)

def AsyncDefaultStreamProvider.calls (aes : Block → Block → Block) (early : IoError) (turns : Nat) :
    List (ProviderCall δ γ) → AsyncDefaultStreamProvider κ ι α ω →
      List (Except (Stop ReadError) γ) × Option (AsyncDefaultStreamProvider κ ι α ω)
  | [], p => ([], some p)
  | .readPacket S handlePacket :: rest, p =>
    let (reply, p) := p.asyncReadPacket early turns S handlePacket
    let (replies, p) := calls aes early turns rest p
    (reply :: replies, p)
  | .setCompressionThreshold threshold :: rest, p =>
    calls aes early turns rest (p.setCompressionThreshold threshold)
  | .withEncryption key :: rest, p => match p.withEncryption aes key with
    | some p => calls aes early turns rest p
    | none => ([], none)

/-- What the caller of the polled provider hears where the blocking one comes to `reply`. -/
def heard (early : IoError) (reply : Except ReadError (Invocation γ)) : Except (Stop ReadError) γ :=
  ((reply.mapError (ReadError.reworded early)).bind Invocation.result).mapError .error

/-- Both writers encrypt, or neither does. -/
inductive SameWriterMode : AsyncDefaultWriter ω → DefaultWriterState ω' → Prop
  | standard {b : AsyncBufferedWriter ω} {b' : BufferedWriter ω'} :
      SameWriterMode (.standard b) (.standard b')
  | encrypt {e : AsyncEncryptionWriter ω} {e' : EncryptionWriter ω'} :
      SameWriterMode (.encrypt e) (.encrypt e')

structure SameProvider (A : α → ρ → Prop) (p : AsyncDefaultStreamProvider κ ι α ω)
    (q : DefaultStreamProvider κ' ι ρ ω') : Prop where
  reader : SameBuffer (AsyncDefaultReader.SameMode A) p.reader q.reader
  writer : SameWriterMode p.writer q.writer.writer
  threshold : p.compressionThreshold = q.compressionThreshold
  state : p.decompressionState = q.decompressionState

omit [Inflate ι] [AsyncRead α] [Read ρ] in
theorem SameProvider.new {A : α → ρ → Prop} {reader : α} {reader' : ρ} (h : A reader reader')
    (writer : ω) (writer' : ω') (compressionState : κ) (compressionState' : κ')
    (decompressionState : ι) (bufferSize : Nat) :
    SameProvider A (.new reader writer compressionState decompressionState bufferSize)
      (.new reader' writer' compressionState' decompressionState bufferSize) :=
  ⟨⟨.standard h, rfl, rfl⟩, .standard, rfl, rfl⟩

omit [Inflate ι] [AsyncRead α] [Read ρ] in
theorem SameProvider.withEncryption {A : α → ρ → Prop} {p : AsyncDefaultStreamProvider κ ι α ω}
    {q : DefaultStreamProvider κ' ι ρ ω'} (h : SameProvider A p q) (aes : Block → Block → Block)
    (key : Block) :
    Option.Rel (SameProvider A) (p.withEncryption aes key) (q.withEncryption aes key) := by
  obtain ⟨⟨inner, buffer, capacity⟩, writer, threshold, compressionState, decompressionState⟩ := p
  obtain ⟨⟨inner', buffer', capacity'⟩, ⟨compressionState', writer'⟩, threshold',
      decompressionState'⟩ := q
  obtain ⟨⟨hinner, hbuffer, hcapacity⟩, hwriter, hthreshold, hstate⟩ := h
  cases hinner with
  | decrypt hinner => exact .none
  | standard hinner =>
    cases hwriter with
    | encrypt => exact .none
    | standard => exact .some ⟨⟨.decrypt ⟨hinner, rfl⟩, hbuffer, hcapacity⟩, .encrypt,
        hthreshold, hstate⟩

theorem SameProvider.readPacket {A : α → ρ → Prop} {early : IoError}
    (hread : Follows early A) (S : ProtocolState δ) (handlePacket : δ → Program ReadError Nat γ)
    {p : AsyncDefaultStreamProvider κ ι α ω} {q : DefaultStreamProvider κ' ι ρ ω'}
    (h : SameProvider A p q) :
    let frame := readFrame S (told early handlePacket) q.compressionThreshold q.readStream
    ∃ turns p',
      SameProvider A p'
      {q with reader := frame.2.reader, decompressionState := frame.2.decompressionState} ∧
      ∀ more, p.asyncReadPacket early (turns + more) S handlePacket = (heard early frame.1, p') := by
  have hreader := AsyncDefaultReader.follows hread
  have hstands : TokioReader.SameState (SameBuffer (AsyncDefaultReader.SameMode A))
      p.asyncReadStream q.readStream :=
    ⟨h.reader, h.state⟩
  obtain ⟨turns, a', ha', hframe⟩ := asyncReadFrame_matches hreader.bufReader
    (FollowsFill.bufReader hreader) S handlePacket q.compressionThreshold hstands
  refine ⟨turns, {p with reader := a'.reader, decompressionState := a'.state},
    ⟨ha'.1, h.writer, h.threshold, ha'.2⟩, fun more => ?_⟩
  simp only [AsyncDefaultStreamProvider.asyncReadPacket, borrowing_apply, asyncReadPacket,
    h.threshold, hframe more, heard]
  rcases (readFrame S (told early handlePacket) q.compressionThreshold q.readStream).1 with _ | _ <;> rfl

/-- Whole runs: what the calls of the two providers return, and that they panic at the same call. -/
theorem asyncCalls_match {A : α → ρ → Prop} {early : IoError} (hread : Follows early A)
    (aes : Block → Block → Block) (calls : List (ProviderCall δ γ))
    {p : AsyncDefaultStreamProvider κ ι α ω} {q : DefaultStreamProvider κ' ι ρ ω'}
    (h : SameProvider A p q) :
    let run := q.calls aes (calls.map (ProviderCall.told early))
    ∃ turns p', Option.Rel (SameProvider A) p' run.2 ∧
      ∀ more, p.calls aes early (turns + more) calls = (run.1.map (heard early), p') := by
  induction calls generalizing p q with
  | nil => exact ⟨0, some p, .some h, fun _ => rfl⟩
  | cons call rest ih =>
    cases call with
    | setCompressionThreshold threshold =>
      have hset : SameProvider A (p.setCompressionThreshold threshold)
          (q.setCompressionThreshold threshold) :=
        ⟨h.reader, h.writer, rfl, h.state⟩
      exact ih hset
    | withEncryption key =>
      have hswitch := h.withEncryption aes key
      simp only [List.map_cons, ProviderCall.told, DefaultStreamProvider.calls,
        AsyncDefaultStreamProvider.calls]
      generalize p.withEncryption aes key = p' at hswitch
      generalize q.withEncryption aes key = q' at hswitch
      cases hswitch with
      | none => exact ⟨0, none, .none, fun _ => rfl⟩
      | some h' => exact ih h'
    | readPacket S handlePacket =>
      obtain ⟨turns, p₁, h₁, hfirst⟩ := h.readPacket hread S handlePacket
      obtain ⟨turns', p₂, h₂, hrest⟩ := ih h₁
      refine ⟨turns + turns', p₂, h₂, fun more => ?_⟩
      simp only [AsyncDefaultStreamProvider.calls]
      rw [Nat.add_assoc, hfirst (turns' + more)]
      simp only [Nat.add_left_comm turns, hrest (turns + more)]
      rfl

/-- A packet, a cut one and a switch, with four polls that come too early. -/
theorem asyncCalls_match_delayed :
    let S : ProtocolState Unit := ⟨"play", fun id => if id = 0 then some () else none⟩
    let whole : Unit → Program ReadError Nat Bytes := fun _ => .remaining readBytes
    let aes : Block → Block → Block := fun _ _ _ => 1
    let early : IoError := ⟨.unexpectedEof, "early eof"⟩
    let delayed : Delayed := ⟨[none, some [2], none, none, some [0, 7, 3], none], by decide⟩
    let p : AsyncDefaultStreamProvider Unit Stored.Inflater Delayed AsyncScripted :=
      .new delayed ⟨[], []⟩ () ⟨Stored.start, []⟩ 4
    let calls : List (ProviderCall Unit Bytes) :=
      [.readPacket S whole, .readPacket S whole, .withEncryption fun _ => 0,
        .setCompressionThreshold none]
    let q : DefaultStreamProvider Unit Stored.Inflater Segments Collected :=
      .new ⟨[[2], [0, 7, 3]], by decide⟩ ⟨[]⟩ () ⟨Stored.start, []⟩ 4
    ∃ turns p', Option.Rel (SameProvider Delayed.Brings) p' (q.calls aes (calls.map (.told early))).2 ∧
      ∀ more, p.calls aes early (turns + more) calls =
        ([.ok [7], .error (.error (.streamError early))], p') := by
  intro S whole aes early delayed p calls q
  have hbrings : Delayed.Brings delayed ⟨[[2], [0, 7, 3]], by decide⟩ := rfl
  have hsame : SameProvider Delayed.Brings p q := .new hbrings _ _ _ _ _ _
  obtain ⟨turns, p', hrel, hcalls⟩ := asyncCalls_match (Delayed.follows early) aes calls hsame
  refine ⟨turns, p', hrel, fun more => ?_⟩
  rw [hcalls more]
  have hreplies : (q.calls aes (calls.map (.told early))).1.map (heard early) =
      [.ok [7], .error (.error (.streamError early))] := by decide +kernel
  rw [hreplies]

end Calls

end Protocraft
