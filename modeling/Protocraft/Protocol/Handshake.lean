import Protocraft.Primatives.HandshakeVersion
import Protocraft.Protocol.Segmentation

/-! What a handler can do to the stream.

A handler may make any calls on the reader it gets, too long ones among them. That reader
ends where the packet does, and what a call that fails has taken is no longer within the
limit; so the bytes that the handler leaves are those up to the packet's end
(`handler_isolated`). The first packet of a connection is handled in the same way, within
the bound that its version comes with. -/
namespace Protocraft
open Protocraft.Stream

/-- The handshakes: the modern one, and those of 1.6, 1.4-1.5 and <=1.3. -/
inductive Handshake where
  | standard
  | legacy1_6
  | legacy1_5
  | legacy1_3
  deriving DecidableEq, Repr

section Program
variable {δ α : Type}

/-- A packet that needs no id. -/
def handleKnown (handlePacket : δ → Program ReadError Nat α) (designator : δ) :
    Program ReadError Nat (Invocation α) := do
  let result ← (handlePacket designator).attempt
  discardRemaining
  return .handled result

end Program

section Read
variable {α ι ρ : Type} [Read ρ] [SetBlocking ρ]
open DecompressionStateWrappedReader (withBound remaining)

/-- `read_handshake`, but for the handler's result. -/
def readOpening (S : ProtocolState Handshake) (handlePacket : Handshake → Program ReadError Nat α) :
    Action ReadError (DecompressionStateWrappedReader ι ρ) (Invocation α) := do
  match ← HandshakeVersion.fromReader with
  | .standard bound => withBound bound ((handleHelper S handlePacket).run remaining)
  | .legacy1_6 bound => withBound bound ((handleKnown handlePacket .legacy1_6).run remaining)
  | .pre1_6 => withBound 0 ((handleKnown handlePacket .legacy1_5).run remaining)
  | .pre1_3 => withBound 0 ((handleKnown handlePacket .legacy1_3).run remaining)

def readHandshake (S : ProtocolState Handshake) (handlePacket : Handshake → Program ReadError Nat α) :
    Action ReadError (DecompressionStateWrappedReader ι ρ) α := fun r =>
  let (reply, r) := readOpening S handlePacket r
  (reply.bind Invocation.result, r)

theorem readHandshake_apply (S : ProtocolState Handshake)
    (handlePacket : Handshake → Program ReadError Nat α) (r : DecompressionStateWrappedReader ι ρ) :
    readHandshake S handlePacket r =
      ((readOpening S handlePacket r).1.bind Invocation.result, (readOpening S handlePacket r).2) := rfl

end Read

/-! ### On the bytes -/

section Eval
variable {δ α : Type} {S : ProtocolState δ} {handlePacket : δ → Program ReadError Nat α}

theorem handleKnown_eval (designator : δ) (payload : Bytes) :
    (handleKnown handlePacket designator).eval List.length payload =
      (.ok (.handled ((handlePacket designator).eval List.length payload).1), []) := by
  rw [handleKnown, Program.eval_bind_ok (Program.eval_attempt _ _ _),
    Program.eval_bind_ok (discardRemaining_eval _)]
  rfl

/-- The packet in the body of a frame that is not compressed: behind a zero, if frames may be. -/
def Uncompressed : Option Nat → Bytes → Bytes → Prop
  | none, body, packet => packet = body
  | some _, body, packet => ∃ n, Leb128.decode 5 body = some (n, packet) ∧ BitVec.ofNat 32 n = 0

/-- `packet` is the id of a packet that the state knows, and `payload`. -/
def Addressed (S : ProtocolState δ) (packet : Bytes) (designator : δ) (payload : Bytes) : Prop :=
  ∃ n, Leb128.decode 5 packet = some (n, payload) ∧
    S.designatorFromId (BitVec.ofNat 32 n) = some designator

def HandshakeVersion.bound : HandshakeVersion → Nat
  | standard bound => bound
  | legacy1_6 bound => bound
  | pre1_6 => 0
  | pre1_3 => 0

/-- Only the modern handshake has an id. -/
def HandshakeVersion.Addressed (S : ProtocolState Handshake) :
    HandshakeVersion → Bytes → Handshake → Bytes → Prop
  | standard _, body, designator, payload => Protocraft.Addressed S body designator payload
  | legacy1_6 _, body, designator, payload => designator = .legacy1_6 ∧ payload = body
  | pre1_6, body, designator, payload => designator = .legacy1_5 ∧ payload = body
  | pre1_3, body, designator, payload => designator = .legacy1_3 ∧ payload = body

end Eval

/-! ### On a reader -/

section Frames
variable {δ α ι ρ : Type} [BufRead ρ] {R : ρ → Bytes → Prop}
open DecompressionStateWrappedReader (withBound remaining)

/-- Within a limit in the stream a program does what it does on the bytes up to the limit. -/
theorem run_taken (h : Delivers R Never) {ε : Type} {p : Program ε Nat α} {t : Take ρ}
    {c rest left : Bytes} {result : Except ε α} (ht : Taken R rest t c)
    (heval : p.eval List.length c = (result, left)) :
    ∃ t', p.run Take.limit t = (result, t') ∧ Taken R rest t' left :=
  Program.run_eq (h.toYields.take rest) (fun ht => ht.2.symm) ht heval

/-- The same within the bound of a wrapped reader, which may be `k` bytes behind what the
stream holds. -/
theorem withBound_eval (h : Delivers R Never) {ε : Type} {p : Program ε Nat α} {k : Nat}
    {r : DecompressionStateWrappedReader ι ρ} {c rest left : Bytes} {result : Except ε α}
    (hr : R r.reader (c ++ rest)) (hrest : 0 < k → rest = [])
    (heval : p.eval (fun c => c.length + k) c = (result, left)) :
    (withBound (c.length + k) (p.run remaining) r).1 = result ∧
      R (withBound (c.length + k) (p.run remaining) r).2.reader (left ++ rest) := by
  have hstart : Overrun R rest k (⟨r.reader, c.length + k⟩ : Take ρ) c := ⟨hr, rfl, hrest⟩
  obtain ⟨t, hrun, ht⟩ := Program.run_eq (h.overrun rest k) (fun ht => ht.2.1) hstart heval
  have hwrapped := @Program.run_passes _ _ _ _ _ _ _ _
    (DecompressionStateWrappedReader.passes r.decompressionState)
    Take.limit remaining (fun _ => rfl) p (⟨r.reader, c.length + k⟩ : Take ρ)
  rw [withBound, borrowing_apply, hwrapped, hrun]
  exact ⟨rfl, ht.1⟩

theorem DecompressionStateWrappedReader.delivers (h : Delivers R Never) :
    Delivers (fun r : DecompressionStateWrappedReader ι ρ => R r.reader) Never where
  more := by
    intro r c n hn hc hr
    obtain ⟨bytes, c', r', hread, hmore⟩ := h.more hn hc hr
    exact ⟨bytes, c',
      ⟨r.decompressionState, r'⟩, by rw [passes r.decompressionState n r.reader, hread], hmore⟩
  ended := by
    intro r n hn hr
    obtain ⟨r', hread, hended⟩ := h.ended hn hr
    exact ⟨⟨r.decompressionState, r'⟩, by rw [passes r.decompressionState n r.reader, hread], hended⟩

theorem DecompressionStateWrappedReader.tryReadByte [SetBlocking ρ] (s : ι) (r : ρ) :
    HandshakeVersion.tryReadByte (DecompressionStateWrappedReader.mk s r) =
      ((HandshakeVersion.tryReadByte r).1, ⟨s, (HandshakeVersion.tryReadByte r).2⟩) := by
  have hblocking : ∀ (blocking : Bool) (r : ρ),
      SetBlocking.setBlocking blocking (DecompressionStateWrappedReader.mk s r) =
        ((SetBlocking.setBlocking blocking r).1, ⟨s, (SetBlocking.setBlocking blocking r).2⟩) :=
        fun _ _ => rfl
  have hread := (passes (ρ := ρ) s).readExact 1
  unfold HandshakeVersion.tryReadByte
  rw [bind_apply, bind_apply, hblocking]
  rcases SetBlocking.setBlocking false r with ⟨e | _, r₁⟩
  · rfl
  dsimp only
  rw [bind_apply, bind_apply, attempt_apply, attempt_apply, hread]
  dsimp only
  rw [bind_apply, bind_apply, hblocking]
  rcases SetBlocking.setBlocking true (readExact 1 r₁).2 with ⟨e | _, r₂⟩
  · rfl
  dsimp only
  rcases (readExact 1 r₁).1 with e | bytes
  · dsimp only
    split <;> rfl
  · rfl

theorem DecompressionStateWrappedReader.tries [SetBlocking ρ] (h : HandshakeVersion.Tries R) :
    HandshakeVersion.Tries (fun r : DecompressionStateWrappedReader ι ρ => R r.reader) := by
  intro r c hr
  have htry := DecompressionStateWrappedReader.tryReadByte r.decompressionState r.reader
  rcases h hr with ⟨r', e, hreply⟩ | ⟨r', hreply, hr'⟩ | ⟨r', b, c', hreply, rfl, hr'⟩ <;>
    rw [hreply] at htry
  · exact .inl ⟨_, e, htry⟩
  · exact .inr (.inl ⟨_, htry, hr'⟩)
  · exact .inr (.inr ⟨_, b, c', htry, rfl, hr'⟩)

variable (S : ProtocolState δ) (handlePacket : δ → Program ReadError Nat α)

/-- A frame that is not compressed is read by the helper, within the frame. -/
theorem readFrame_uncompressed [Inflate ι] (h : Delivers R Never) {threshold : Option Nat} {r : ρ}
    {c body packet rest : Bytes} (hr : R r c)
    (hlength : Leb128.decode 3 c = some (body.length, body ++ rest))
    (hpacket : Uncompressed threshold body packet) (s : ι) : ∃ t, Taken R rest t packet ∧
      readFrame S handlePacket threshold (DecompressionStateWrappedReader.mk s r) =
        (((handleHelper S handlePacket).run Take.limit t).1,
          ⟨s, ((handleHelper S handlePacket).run Take.limit t).2.inner⟩) := by
  obtain ⟨r₁, ht, hread⟩ :=
    @readFrame_bounded δ α ρ _ R S handlePacket h r c body rest hr hlength threshold
  cases threshold with
  | none =>
    cases hpacket
    refine ⟨⟨r₁, body.length⟩, ht, ?_⟩
    rw [hread, withBound, borrowing_apply, readBody_none]
  | some threshold =>
    obtain ⟨n, hzero, hn⟩ := hpacket
    obtain ⟨t, ht', hbody⟩ := readBody_zero h ht hzero hn threshold
    refine ⟨t, ht', ?_⟩
    rw [hread, withBound, borrowing_apply, hbody]

end Frames

/-! ### Isolation -/

section Isolation
variable {δ ι ρ : Type} {R : ρ → Bytes → Prop}
open DecompressionStateWrappedReader (withBound remaining)

/-- What is read of a stream is the payload of one packet, by its handler, which observes no
more than that payload, whatever it does; then `rest` is left. -/
structure Isolated (R : ρ → Bytes → Prop) (designator : δ) (payload rest : Bytes)
    (read : ∀ {α : Type}, (δ → Program ReadError Nat α) →
      Except ReadError α × DecompressionStateWrappedReader ι ρ) : Prop where
  observes : ∀ {α : Type} (handlePacket : δ → Program ReadError Nat α),
    (read (watched handlePacket)).1 = ((watched handlePacket designator).eval List.length payload).1
  returns : ∀ {α : Type} (handlePacket : δ → Program ReadError Nat α),
    ∃ log, (read (watched handlePacket)).1 = .ok (log, (read handlePacket).1)
  consumes : ∀ {α : Type} (handlePacket : δ → Program ReadError Nat α),
    R (read handlePacket).2.reader rest

/-- It is enough that each handler comes to what it does on the payload. -/
theorem Isolated.of_eval {designator : δ} {payload rest : Bytes}
    {read : ∀ {α : Type}, (δ → Program ReadError Nat α) →
      Except ReadError α × DecompressionStateWrappedReader ι ρ}
    (heval : ∀ {α : Type} (handlePacket : δ → Program ReadError Nat α),
      (read handlePacket).1 = ((handlePacket designator).eval List.length payload).1 ∧
        R (read handlePacket).2.reader rest) : Isolated R designator payload rest read where
  observes handlePacket := (heval (watched handlePacket)).1
  returns handlePacket := by
    obtain ⟨log, hlog⟩ := Program.observed_eval List.length (handlePacket designator) payload
    exact ⟨log, by rw [(heval (watched handlePacket)).1, (heval handlePacket).1, watched, hlog]⟩
  consumes handlePacket := (heval handlePacket).2

variable [BufRead ρ]

theorem readPacket_isolated [Inflate ι] (h : Delivers R Never) {S : ProtocolState δ}
    {threshold : Option Nat} {r : ρ} {c body packet payload rest : Bytes} {designator : δ}
    (hr : R r c) (hlength : Leb128.decode 3 c = some (body.length, body ++ rest))
    (hpacket : Uncompressed threshold body packet)
    (hknown : Addressed S packet designator payload) (s : ι) :
    Isolated R designator payload rest fun handlePacket =>
      readPacket S handlePacket threshold (DecompressionStateWrappedReader.mk s r) := by
  refine .of_eval fun {α} handlePacket => ?_
  obtain ⟨n, hid, hdesignator⟩ := hknown
  obtain ⟨t, ht, hread⟩ := readFrame_uncompressed S handlePacket h hr hlength hpacket s
  obtain ⟨t', hrun, ht'⟩ := run_taken h ht (handleHelper_known hid hdesignator)
  rw [readPacket_apply, hread, hrun]
  exact ⟨rfl, ht'.1⟩

/-- Each version's packet, on the bytes within its bound. -/
def HandshakeVersion.handle {α : Type} (S : ProtocolState Handshake)
    (handlePacket : Handshake → Program ReadError Nat α) :
    HandshakeVersion → Program ReadError Nat (Invocation α)
  | standard _ => handleHelper S handlePacket
  | legacy1_6 _ => handleKnown handlePacket .legacy1_6
  | pre1_6 => handleKnown handlePacket .legacy1_5
  | pre1_3 => handleKnown handlePacket .legacy1_3

theorem readOpening_ok [SetBlocking ρ] {α : Type} {S : ProtocolState Handshake}
    {handlePacket : Handshake → Program ReadError Nat α} {version : HandshakeVersion}
    {r r' : DecompressionStateWrappedReader ι ρ}
    (hversion : HandshakeVersion.fromReader r = (.ok version, r')) :
    readOpening S handlePacket r =
      withBound version.bound ((version.handle S handlePacket).run remaining) r' := by
  rw [readOpening, bind_ok hversion]
  cases version <;> rfl

theorem readHandshake_isolated [SetBlocking ρ] (h : Delivers R Never) {S : ProtocolState Handshake}
    {version : HandshakeVersion} {r r' : DecompressionStateWrappedReader ι ρ} {body payload rest : Bytes}
    {designator : Handshake} (hversion : HandshakeVersion.fromReader r = (.ok version, r'))
    (hr : R r'.reader (body ++ rest)) (hbound : body.length = version.bound)
    (hknown : version.Addressed S body designator payload) :
    Isolated R designator payload rest fun handlePacket => readHandshake S handlePacket r := by
  refine .of_eval fun {α} handlePacket => ?_
  have heval : (version.handle S handlePacket).eval List.length body =
      (.ok (.handled ((handlePacket designator).eval List.length payload).1), []) := by
    cases version with
    | standard bound =>
      obtain ⟨n, hid, hdesignator⟩ := hknown
      exact handleHelper_known hid hdesignator
    | legacy1_6 bound =>
      obtain ⟨rfl, rfl⟩ := hknown
      exact handleKnown_eval _ _
    | pre1_6 =>
      obtain ⟨rfl, rfl⟩ := hknown
      exact handleKnown_eval _ _
    | pre1_3 =>
      obtain ⟨rfl, rfl⟩ := hknown
      exact handleKnown_eval _ _
  obtain ⟨hreply, hleft⟩ :=
    @withBound_eval _ _ _ _ _ h _ _ 0 _ _ _ _ _ hr (fun hk => absurd hk (Nat.lt_irrefl 0)) heval
  rw [Nat.add_zero, hbound] at hreply hleft
  rw [readHandshake_apply, readOpening_ok hversion, hreply]
  exact ⟨rfl, hleft⟩

/-- **A handler observes the payload of its packet and nothing else of the stream**, on any
reader and in any pieces; its result is what reading the packet returns, and the stream is
left behind the packet. A handshake is the packet within the bound that was read for it. -/
theorem handler_isolated (h : Delivers R Never) {body rest : Bytes} :
    (∀ {δ : Type} (S : ProtocolState δ) {designator : δ} {payload : Bytes} [Inflate ι]
      (threshold : Option Nat)
      {c packet : Bytes} (r : DecompressionStateWrappedReader ι ρ), R r.reader c →
      Leb128.decode 3 c = some (body.length, body ++ rest) → Uncompressed threshold body packet →
      Addressed S packet designator payload →
      Isolated R designator payload rest fun handlePacket => readPacket S handlePacket threshold r) ∧
    (∀ (S : ProtocolState Handshake) {designator : Handshake} {payload : Bytes} [SetBlocking ρ]
      {version : HandshakeVersion} (r : DecompressionStateWrappedReader ι ρ)
      {r' : DecompressionStateWrappedReader ι ρ}, HandshakeVersion.fromReader r = (.ok version, r') →
      R r'.reader (body ++ rest) → body.length = version.bound →
      version.Addressed S body designator payload →
      Isolated R designator payload rest fun handlePacket => readHandshake S handlePacket r) := by
  constructor
  · intro δ S designator payload _ threshold c packet r hr hlength hpacket hknown
    exact readPacket_isolated h hr hlength hpacket hknown r.decompressionState
  · intro S designator payload _ version r r' hversion hr hbound hknown
    exact readHandshake_isolated h hversion hr hbound hknown

/-- A packet of two bytes and a handshake of two, in pieces. -/
theorem handler_isolated_pieces :
    let S : ProtocolState Unit := ⟨"play", fun id => if id = 0 then some () else none⟩
    let H : ProtocolState Handshake := ⟨"handshake", fun id => if id = 0 then some .standard else none⟩
    let stream : Segments := ⟨[[3, 0], [7, 8, 1]], by decide⟩
    let start : DecompressionStateWrappedReader Stored.Inflater (BufReader Segments) :=
      ⟨⟨Stored.start, []⟩, ⟨stream, [], 64⟩⟩
    Isolated (Buffered Segments.Holds) () [7, 8] [1]
      (fun handlePacket => readPacket S handlePacket none start) ∧
    Isolated (Buffered Segments.Holds) .standard [7, 8] [1]
      (fun handlePacket => readHandshake H handlePacket start) ∧
    (readPacket S (fun _ => readBytes 3) none start).1 = .error (.streamError failedToFill) := by
  intro S H stream start
  have hheld : Buffered Segments.Holds start.reader [3, 0, 7, 8, 1] :=
    ⟨by decide, [3, 0, 7, 8, 1], rfl, rfl⟩
  have hisolated := @handler_isolated Stored.Inflater _ _ _ Segments.delivers.buffered [0, 7, 8] [1]
  refine ⟨hisolated.1 S none start hheld (by decide) rfl ⟨0, by decide, by decide⟩,
    ?_, by decide +kernel⟩
  have hversion : HandshakeVersion.fromReader start =
      (.ok (.standard 3), ⟨⟨Stored.start, []⟩, ⟨⟨[[7, 8, 1]], by decide⟩, [0], 64⟩⟩) := rfl
  exact hisolated.2 H start hversion ⟨by decide, [7, 8, 1], rfl, rfl⟩ rfl ⟨0, by decide, by decide⟩

end Isolation

end Protocraft
