import Protocraft.Protocol.AsyncRead
import Protocraft.Protocol.Opening

/-! Opening a connection asynchronously.

`async_read_handshake` has the text of `read_handshake`, but for how it looks whether another byte has
come: it polls once where that reads with blocking switched off. On transports that agree about
that the two see the same version of handshake, hand the same bytes to the same handler and leave
the stream in the same place (`asyncReadHandshake_matches`), also when the ping is malformed or cut
short. -/
namespace Protocraft
open Protocraft.Stream
open Program (Rewords)

/-! ### A byte that may not have come -/

section Try
variable {α ρ : Type} [AsyncRead α] [Read ρ] [SetBlocking ρ]

/-- `AsyncReader::async_try_read_byte`, after its wait: none if its one poll has to wait. At the end
of the stream it fails with `ended`. -/
def asyncTryReadByte (ended : IoError) : Action (Stop IoError) α (Option Byte) := fun a =>
  match AsyncRead.pollRead ⟨[], 1⟩ a with
  | (.pending, _, a') => (.ok none, a')
  | (.ready (.error e), _, a') => (.error (.error e), a')
  | (.ready (.ok ()), buf, a') =>
    if buf.filled = [] then (.error (.error ended), a') else (.ok (some (buf.filled.headD 0)), a')

omit [AsyncRead α] in
/-- What `try_read_byte` makes of its read. -/
theorem tryReadByte_eq {r r₁ r₂ r₃ : ρ} {reply : Except IoError Bytes}
    (hunblock : SetBlocking.setBlocking false r = (.ok (), r₁)) (hread : Read.read 1 r₁ = (reply, r₂))
    (hblock : SetBlocking.setBlocking true r₂ = (.ok (), r₃)) : HandshakeVersion.tryReadByte r =
      (match reply with
        | .ok [] => .error failedToFill
        | .ok (b :: _) => .ok (some b)
        | .error e => if e.kind = .wouldBlock then .ok none else .error e, r₃) := by
  have hexact : (Stream.readExact 1 : Action IoError ρ Bytes) r₁ =
      (reply.bind fun bytes => if bytes = [] then .error failedToFill else .ok bytes, r₂) := by
    obtain e | bytes := reply
    · exact bind_error hread
    · refine (bind_ok hread).trans ?_
      cases bytes with
      | nil => rfl
      | cons b bytes =>
        have hlast : 0 + 1 - (b :: bytes).length = 0 := by simp
        rw [if_neg (List.cons_ne_nil b bytes), hlast]
        show (Except.ok ((b :: bytes) ++ []), r₂) = _
        rw [List.append_nil]
        rfl
  rw [HandshakeVersion.tryReadByte, bind_ok hunblock, bind_ok (attempt_apply _ _), hexact,
    bind_ok hblock]
  obtain e | _ | ⟨b, bytes⟩ := reply
  · simp only [Except.bind]
    split <;> rfl
  · rfl
  · rfl

theorem asyncTryReadByte_matches {ended : IoError} {A : Bool → α → ρ → Prop}
    (h : FollowsUnblocked ended A) :
    Matches (reworded ended) (A true) (fun _ => asyncTryReadByte ended)
      HandshakeVersion.tryReadByte := by
  intro a r hr
  obtain ⟨r₁, hunblock, hr₁⟩ := h.switch false hr
  have hanswer := h.read ⟨[], 1⟩ hr₁
  simp only [asyncTryReadByte]
  generalize hreply : Read.read 1 r₁ = reply at hanswer
  generalize AsyncRead.pollRead ⟨[], 1⟩ a = poll at hanswer ⊢
  cases hanswer with
  | @later e a' r₂ hread hblocks hr₂ =>
    subst hread
    obtain ⟨r₃, hblock, hr₃⟩ := h.switch true hr₂
    refine ⟨0, a', ?_, fun _ => ?_⟩ <;> rw [tryReadByte_eq hunblock hreply hblock]
    · exact hr₃
    · simp only [hblocks, if_true]
      rfl
  | @read bytes a' r₂ hread hr₂ =>
    subst hread
    obtain ⟨r₃, hblock, hr₃⟩ := h.switch true hr₂
    refine ⟨0, a', ?_, fun _ => ?_⟩ <;> rw [tryReadByte_eq hunblock hreply hblock]
    · exact hr₃
    · cases bytes with
      | nil => simp [ReadBuf.put, Except.mapError]
      | cons b bytes => rfl
  | @failed e a' r₂ hread hfails hr₂ =>
    subst hread
    obtain ⟨r₃, hblock, hr₃⟩ := h.switch true hr₂
    refine ⟨0, a', ?_, fun _ => ?_⟩ <;> rw [tryReadByte_eq hunblock hreply hblock]
    · exact hr₃
    · simp only [hfails, if_false]
      rfl

theorem nextByte_matches {ended : IoError} {A : Bool → α → ρ → Prop} (h : FollowsUnblocked ended A) :
    Matches (ReadError.reworded ended) (A true)
      (fun _ => mapError (Stop.map ReadError.streamError) (asyncTryReadByte ended))
      (mapError ReadError.streamError HandshakeVersion.tryReadByte) := by
  intro a r hr
  obtain ⟨turns, a', ha', htry⟩ := asyncTryReadByte_matches h hr
  refine ⟨turns, a', ha', fun more => ?_⟩
  simp only [mapError_apply, htry more]
  cases (HandshakeVersion.tryReadByte r).1 <;> rfl

end Try

/-! ### The version of a handshake -/

namespace HandshakeVersion

section Rewords
variable {β : Type} {early : IoError}

theorem standardLength_rewords (firstByte : Byte) :
    Rewords (Stream.reworded early) (ReadError.reworded early) (standardLength firstByte)
      (standardLength firstByte) := by
  unfold standardLength
  dsimp only
  split
  · exact Program.rewords_pure _
  · exact VarInt.readSegments_rewords rfl _ _

theorem standardFromReader_rewords (firstByte : Byte) :
    Rewords (Stream.reworded early) (ReadError.reworded early) (standardFromReader firstByte)
      (standardFromReader firstByte) := by
  apply (standardLength_rewords firstByte).bind
  intro value
  split
  · exact .done (.error (ReadError.negativeLength "handshake_varint"))
  · exact Program.rewords_pure _

end Rewords

section Reader
variable {α ρ : Type} [AsyncRead α] [Read ρ]

def asyncChannelFromReader (early : IoError) (turns : Nat) :
    Action (Stop ReadError) α HandshakeVersion := do
  let channelLength ← (readBytes 2).asyncRun early turns fun _ => ()
  if i16FromBeBytes channelLength ≠ 0x0B then throw (.error .malformedLegacyPing)
  else
    let channel ← (readBytes 22).asyncRun early turns fun _ => ()
    if channel ≠ pingHost then throw (.error .malformedLegacyPing)
    else
      let dataLength ← (readBytes 2).asyncRun early turns fun _ => ()
      if (i16FromBeBytes dataLength).toInt < 0 then throw (.error (.negativeLength "legacy_ping_bound"))
      else return .legacy1_6 (i16FromBeBytes dataLength).toNat

def asyncLegacyFromReader (early ended : IoError) (turns : Nat) :
    Action (Stop ReadError) α HandshakeVersion := do
  match ← mapError (Stop.map .streamError) (asyncTryReadByte ended) with
  | none => return .pre1_3
  | some nextByte =>
    if nextByte ≠ 0x01 then throw (.error .malformedLegacyPing)
    else
      match ← mapError (Stop.map .streamError) (asyncTryReadByte ended) with
      | none => return .pre1_6
      | some channelByte =>
        if channelByte ≠ 0xFA then throw (.error .malformedLegacyPing)
        else asyncChannelFromReader early turns

/-- `HandshakeVersion::async_from_reader`. -/
def asyncFromReader (early ended : IoError) (turns : Nat) :
    Action (Stop ReadError) α HandshakeVersion := do
  let firstByte ← readU8.asyncRun early turns fun _ => ()
  if firstByte = 0xFE then asyncLegacyFromReader early ended turns
  else (standardFromReader firstByte).asyncRun early turns fun _ => ()

section Matches
variable {early ended : IoError}

theorem asyncChannelFromReader_matches {A : α → ρ → Prop} (h : Follows early A) :
    Matches (ReadError.reworded early) A (fun turns => asyncChannelFromReader early turns)
      channelFromReader := by
  have hbytes : ∀ count, Matches (ReadError.reworded early) A
      (fun turns => (readBytes count : Program ReadError Unit _).asyncRun early turns fun _ => ())
      (readBytes count).onReader := fun count =>
    Program.asyncRun_matches h (fun _ => rfl) (readBytes_rewords count)
  refine (hbytes 2).bind fun channelLength => ?_
  split
  next => exact matches_throw ReadError.malformedLegacyPing
  next =>
    refine (hbytes 22).bind fun channel => ?_
    split
    next => exact matches_throw ReadError.malformedLegacyPing
    next =>
      refine (hbytes 2).bind fun dataLength => ?_
      split
      next => exact matches_throw (ReadError.negativeLength "legacy_ping_bound")
      next => exact matches_pure _

variable [SetBlocking ρ] {A : Bool → α → ρ → Prop}

/-- The words for the end of the stream are those of the read that came to it. -/
def Worded (early ended : IoError) (g : ReadError → ReadError) : Prop :=
  g = ReadError.reworded early ∨ g = ReadError.reworded ended

theorem asyncLegacyFromReader_matches (hread : Follows early (A true))
    (htry : FollowsUnblocked ended A) :
    MatchesSome (Worded early ended) (A true) (fun turns => asyncLegacyFromReader early ended turns)
      legacyFromReader := by
  have hnext := (nextByte_matches htry).some (G := Worded early ended) (.inr rfl)
  have hmalformed : Matches (ReadError.reworded early) (A true)
      (fun _ => (throw (.error .malformedLegacyPing) : Action (Stop ReadError) α HandshakeVersion))
      (throw ReadError.malformedLegacyPing) := matches_throw ReadError.malformedLegacyPing
  rw [legacyFromReader_eq]
  refine hnext.bind fun nextByte => ?_
  cases nextByte with
  | none => exact (matches_pure _).some (.inl rfl)
  | some nextByte =>
    dsimp only
    split
    next => exact hmalformed.some (.inl rfl)
    next =>
      refine hnext.bind fun channelByte => ?_
      cases channelByte with
      | none => exact (matches_pure _).some (.inl rfl)
      | some channelByte =>
        dsimp only
        split
        next => exact hmalformed.some (.inl rfl)
        next => exact (asyncChannelFromReader_matches hread).some (.inl rfl)

theorem asyncFromReader_matches (hread : Follows early (A true)) (htry : FollowsUnblocked ended A) :
    MatchesSome (Worded early ended) (A true) (fun turns => asyncFromReader early ended turns)
      fromReader := by
  have hfirst : Matches (ReadError.reworded early) (A true)
      (fun turns => (readU8 : Program ReadError Unit _).asyncRun early turns fun _ => ())
        readU8.onReader :=
    Program.asyncRun_matches hread (fun _ => rfl) readU8_rewords
  refine (hfirst.some (.inl rfl)).bind fun firstByte => ?_
  split
  next => exact asyncLegacyFromReader_matches hread htry
  next =>
    have hlength : Matches (ReadError.reworded early) (A true)
        (fun turns => (standardFromReader firstByte).asyncRun early turns fun _ => ())
        (standardFromReader firstByte).onReader :=
      Program.asyncRun_matches hread (fun _ => rfl) (standardFromReader_rewords firstByte)
    exact hlength.some (.inl rfl)

end Matches

end Reader

end HandshakeVersion

/-! ### `async_read_handshake` -/

section Read
variable {γ ι α ρ : Type} [AsyncRead α] [Read ρ] [SetBlocking ρ] {early ended : IoError}
  {A : Bool → α → ρ → Prop}
open TokioReader (withBound asyncRemaining)
open HandshakeVersion (Worded)

theorem handleKnown_rewords (handlePacket : Handshake → Program ReadError Nat γ)
    (designator : Handshake) :
    Rewords (reworded early) (ReadError.reworded early) (handleKnown handlePacket designator)
      (handleKnown (told early handlePacket) designator) :=
  (Program.rephrase_rewords _ _).attempt.bind fun _ => discardRemaining_rewords.bind fun _ =>
    Program.rewords_pure _

/-- `async_read_handshake`, but for the handler's result. -/
def asyncReadOpening (early ended : IoError) (turns : Nat) (S : ProtocolState Handshake)
    (handlePacket : Handshake → Program ReadError Nat γ) :
    Action (Stop ReadError) (TokioReader ι α) (Invocation γ) := do
  match ← HandshakeVersion.asyncFromReader early ended turns with
  | .standard bound =>
    withBound bound ((handleHelper S handlePacket).asyncRun early turns asyncRemaining)
  | .legacy1_6 bound =>
    withBound bound ((handleKnown handlePacket .legacy1_6).asyncRun early turns asyncRemaining)
  | .pre1_6 => withBound 0 ((handleKnown handlePacket .legacy1_5).asyncRun early turns asyncRemaining)
  | .pre1_3 => withBound 0 ((handleKnown handlePacket .legacy1_3).asyncRun early turns asyncRemaining)

def asyncReadHandshake (early ended : IoError) (turns : Nat) (S : ProtocolState Handshake)
    (handlePacket : Handshake → Program ReadError Nat γ) :
    Action (Stop ReadError) (TokioReader ι α) γ := fun r =>
  let (reply, r) := asyncReadOpening early ended turns S handlePacket r
  (reply.bind fun invocation => invocation.result.mapError .error, r)

theorem asyncReadOpening_matches (hread : Follows early (A true)) (htry : FollowsUnblocked ended A)
    (S : ProtocolState Handshake) (handlePacket : Handshake → Program ReadError Nat γ) :
    MatchesSome (Worded early ended) (TokioReader.SameState (ι := ι) (A true))
      (fun turns => asyncReadOpening early ended turns S handlePacket)
        (readOpening S (told early handlePacket)) := by
  have hversion := HandshakeVersion.asyncFromReader_matches (TokioReader.follows (ι := ι) hread)
    (TokioReader.followsUnblocked htry)
  have hhandled : ∀ {p q : Program ReadError Nat (Invocation γ)} (bound : Nat),
      Rewords (reworded early) (ReadError.reworded early) p q →
        Matches (ReadError.reworded early) (TokioReader.SameState (ι := ι) (A true))
          (fun turns => withBound bound (p.asyncRun early turns asyncRemaining))
          (DecompressionStateWrappedReader.withBound bound
            (q.run DecompressionStateWrappedReader.remaining)) :=
    fun bound hrewords =>
      TokioReader.withBound_matches (Program.asyncRun_matches (TokioReader.follows hread.take)
      (fun hr => hr.1.2) hrewords) bound
  refine hversion.bind fun version => ?_
  cases version with
  | standard bound => exact (hhandled bound (handleHelper_rewords S handlePacket)).some (.inl rfl)
  | legacy1_6 bound =>
    exact (hhandled bound (handleKnown_rewords handlePacket .legacy1_6)).some (.inl rfl)
  | pre1_6 => exact (hhandled 0 (handleKnown_rewords handlePacket .legacy1_5)).some (.inl rfl)
  | pre1_3 => exact (hhandled 0 (handleKnown_rewords handlePacket .legacy1_3)).some (.inl rfl)

end Read

/-! ### Of a provider -/

section Provider
variable {κ κ' ι α ρ ω ω' γ : Type} [AsyncRead α] [Read ρ] [SetBlocking ρ] {early ended : IoError}
  {A : Bool → α → ρ → Prop}
open HandshakeVersion (Worded)

def AsyncDefaultStreamProvider.asyncReadHandshake (early ended : IoError) (turns : Nat)
    (S : ProtocolState Handshake) (handlePacket : Handshake → Program ReadError Nat γ) :
    Action (Stop ReadError) (AsyncDefaultStreamProvider κ ι α ω) γ :=
  borrowing asyncReadStream (fun r p => {p with reader := r.reader, decompressionState := r.state})
    (Protocraft.asyncReadHandshake early ended turns S handlePacket)

/-- **The first packet is the same to both providers**, a modern or a legacy one, a malformed or a
cut one. -/
theorem asyncReadHandshake_matches (hread : Follows early (A true)) (htry : FollowsUnblocked ended A)
    (S : ProtocolState Handshake) (handlePacket : Handshake → Program ReadError Nat γ)
    {p : AsyncDefaultStreamProvider κ ι α ω} {q : DefaultStreamProvider κ' ι ρ ω'}
    (h : SameProvider (A true) p q) :
    let opening := readOpening S (told early handlePacket) q.readStream
    ∃ g, Worded early ended g ∧ ∃ turns p',
      SameProvider (A true) p'
          {q with reader := opening.2.reader, decompressionState := opening.2.decompressionState} ∧
        ∀ more, p.asyncReadHandshake early ended (turns + more) S handlePacket =
          (((opening.1.mapError g).bind Invocation.result).mapError .error, p') := by
  have hstands : TokioReader.SameState (SameBuffer (AsyncDefaultReader.SameMode (A true)))
      p.asyncReadStream q.readStream := ⟨h.reader, h.state⟩
  have hbuffered := (AsyncDefaultReader.follows hread).bufReader
  have hunblocked := (AsyncDefaultReader.followsUnblocked htry).bufReader
  obtain ⟨g, hg, turns, a', ha', hopening⟩ :=
    asyncReadOpening_matches hbuffered hunblocked S handlePacket hstands
  refine ⟨g, hg, turns, {p with reader := a'.reader, decompressionState := a'.state},
    ⟨ha'.1, h.writer, h.threshold, ha'.2⟩, fun more => ?_⟩
  simp only [AsyncDefaultStreamProvider.asyncReadHandshake, borrowing_apply, asyncReadHandshake,
    hopening more]
  rcases (readOpening S (told early handlePacket) q.readStream).1 with _ | _ <;> rfl

/-- A ping of two bytes, and nothing more when the third is looked for. -/
theorem asyncReadHandshake_matches_waiting :
    let S : ProtocolState Handshake :=
      ⟨"serverbound_handshake", fun id => if id = 0 then some .standard else none⟩
    let early : IoError := ⟨.unexpectedEof, "early eof"⟩
    let ended : IoError := ⟨.unexpectedEof, "unexpected end of file"⟩
    let delayed : Delayed := ⟨[none, some [0xFE, 0x01], none, some [0xFA]], by decide⟩
    let p : AsyncDefaultStreamProvider Unit Stored.Inflater Delayed AsyncScripted :=
      .new delayed ⟨[], []⟩ () ⟨Stored.start, []⟩ 4
    ∃ turns p', ∀ more,
      p.asyncReadHandshake early ended (turns + more) S (fun handshake => pure handshake) =
      (.ok .legacy1_5, p') := by
  intro S early ended delayed p
  let q : DefaultStreamProvider Unit Stored.Inflater Delayed.Waiting Collected :=
    .new ⟨delayed, true⟩ ⟨[]⟩ () ⟨Stored.start, []⟩ 4
  have hwaits : Delayed.Waits true delayed ⟨delayed, true⟩ := rfl
  have hsame : SameProvider (Delayed.Waits true) p q := .new hwaits _ _ _ _ _ _
  obtain ⟨g, -, turns, p', -, hrun⟩ := asyncReadHandshake_matches (Delayed.waits_follows early)
    (Delayed.waits_followsUnblocked ended) S (fun handshake => pure handshake) hsame
  refine ⟨turns, p', fun more => ?_⟩
  rw [hrun more]
  have hopening : (readOpening S (told early fun handshake => pure handshake) q.readStream).1 =
      .ok (.handled (.ok .legacy1_5)) := by decide +kernel
  rw [hopening]
  rfl

end Provider

end Protocraft
