import Mathlib.Logic.Relation
import Protocraft.Protocol.Link
import Protocraft.Stream.Choreography

/-! Two ends of a connection, talking.

Both ends follow one script: who sends which packet, and when both set the threshold, take a
transition or switch encryption on. Each goes through it in its own time, and the bytes between
them arrive in any pieces at any time. An end that is to read waits for the packet, and if that is
compressed, until all that has arrived is in one piece (`End.Pieced`): a compressed packet whose
pieces are read as they come is not understood, nor what follows it.

No table has an id twice (`Plan.Distinct`), the buffers have room (`Fresh`), and what is sent has the
size it declares and is written without an error (`Step.write`). Provided that the party that speaks
first behind the switch is not the one that spoke last before it (`Turning`), every packet is
handled by the other end as what it was sent as, in all of these runs (`Sound.step`). -/
namespace Protocraft
open Protocraft.Stream

section Script
variable {v : Version}

structure Message (v : Version) where
  packets : v.Packets
  packet : (v.table packets).Packet
  payload : Packet

/-- What both ends do, each with its own handler. -/
inductive Act where
  | setCompressionThreshold (threshold : Option Nat)
  | take (transition : Transition)
  | withEncryption
  deriving DecidableEq

def Act.Encrypts : Act → Prop
  | withEncryption => True
  | _ => False

abbrev Script (v : Version) := List (Event (Message v) Act)

namespace Script

def transition : Event (Message v) Act → Option Transition
  | .act (.take t) => some t
  | _ => none

/-- The transitions taken so far. -/
def transitions (past : Script v) : List Transition := past.filterMap transition

@[simp] theorem transitions_message (past : Script v) (side : Side) (m : Message v) :
    transitions (past ++ [.message side m]) = transitions past := by
  simp [transitions, transition]

theorem transitions_act (past : Script v) (a : Act) :
    transitions (past ++ [.act a]) = transitions past ++ (transition (v := v) (.act a)).toList := by
  cases a <;> simp [transitions, transition]

def settle (threshold : Option Nat) : Event (Message v) Act → Option Nat
  | .act (.setCompressionThreshold threshold) => threshold
  | _ => threshold

/-- The threshold set last. -/
def threshold (past : Script v) : Option Nat := past.foldl settle none

@[simp] theorem threshold_message (past : Script v) (side : Side) (m : Message v) :
    threshold (past ++ [.message side m]) = threshold past := by
  simp [threshold, settle]

@[simp] theorem threshold_act (past : Script v) (a : Act) :
    threshold (past ++ [.act a]) = settle (v := v) (threshold past) (.act a) := by
  simp [threshold]

end Script

/-- The packet as the sender's provider writes it. -/
def Message.outgoing (x : Script v × Message v) : Outgoing :=
  ⟨Script.threshold x.1, x.2.packet.id, x.2.payload⟩

end Script

/-! ### The ends -/

section Ends
variable {v : Version} {κ ι : Type}

structure End (v : Version) (κ ι : Type) where
  handler : ProtocolHandler v κ ι Segments Collected
  party : Party (Message v) Act

abbrev Connection (v : Version) (κ ι : Type) := Side → End v κ ι

/-- The client is on the left. -/
def Bound.at : Side → Bound
  | .left => .clientbound
  | .right => .serverbound

theorem Bound.at_other (side : Side) : Bound.at side = (Bound.at side.other).opposite := by
  cases side <;> rfl

def ProtocolHandler.perform (aes : Block → Block → Block) (key : Block) (a : Act)
    (h : ProtocolHandler v κ ι Segments Collected) : Option (ProtocolHandler v κ ι Segments Collected) :=
  match a with
  | .setCompressionThreshold threshold =>
    some {h with provider := h.provider.setCompressionThreshold threshold}
  | .take t => h.take t
  | .withEncryption => (h.provider.withEncryption aes key).map fun provider =>
      {h with provider := provider}

namespace End

/-- A whole frame has arrived, as its length has it. -/
def Ready (e : End v κ ι) : Prop := ∃ n rest,
  Leb128.decode 3 (e.handler.provider.reader.buffer ++ e.handler.provider.reader.inner.held) =
    some (n, rest) ∧
    n ≤ rest.length

/-- If the packet is compressed, all that has arrived is in one piece: decompression takes no other. -/
def Pieced (e : End v κ ι) (m : Message v) : Prop := ∀ least,
  e.handler.provider.compressionThreshold = some least → least ≤ (content m.packet.id m.payload).length →
  e.handler.provider.reader.inner.source.segments = [] ∨ e.handler.provider.reader.buffer = [] ∧
    e.handler.provider.reader.inner.source.Single e.handler.provider.reader.capacity

def unsent (e : End v κ ι) : Bytes := e.handler.provider.writer.writer.unsent

def handOver (k : Nat) (e : End v κ ι) : End v κ ι :=
  {e with handler := {e.handler with provider := {e.handler.provider with
    writer := {e.handler.provider.writer with writer := e.handler.provider.writer.writer.handOver k}}}}

def push (s : Bytes) (hs : s ≠ []) (e : End v κ ι) : End v κ ι :=
  {e with handler := {e.handler with provider := {e.handler.provider with
    reader := {e.handler.provider.reader with inner := e.handler.provider.reader.inner.push s hs}}}}

def advance (e : End v κ ι) (event : Event (Message v) Act) (rest : Script v)
    (handler : ProtocolHandler v κ ι Segments Collected) : End v κ ι :=
  ⟨handler, ⟨e.party.past ++ [event], rest⟩⟩

end End

namespace Connection

def start (script : Script v) (providers : Side → DefaultStreamProvider κ ι Segments Collected) :
    Connection v κ ι :=
  fun side => ⟨.new v (Bound.at side) (providers side), ⟨[], script⟩⟩

/-- The network brings some of what `side` has sent to the other end. -/
def deliver (c : Connection v κ ι) (side : Side) (k : Nat) (hs : (c side).unsent.take k ≠ []) :
    Connection v κ ι :=
  Function.update (Function.update c side ((c side).handOver k)) side.other
    ((c side.other).push ((c side).unsent.take k) hs)

variable [Deflate κ] [Inflate ι]

/-- One thing that happens. -/
inductive Step (aes : Block → Block → Block) (key : Block) : Connection v κ ι → Connection v κ ι → Prop
  | deliver {c : Connection v κ ι} (side : Side) (k : Nat) (hs : (c side).unsent.take k ≠ []) :
    Step aes key c (c.deliver side k hs)
  | write {c : Connection v κ ι} {side : Side} {m : Message v} {rest : Script v}
      {handler : ProtocolHandler v κ ι Segments Collected}
      (hdue : (c side).party.due = .message side m :: rest)
      (haccepted : v.reciprocal (c side).handler.state = some m.packets)
      (hsize : m.payload.size = m.payload.bytes.length) (turns : Nat)
      (hok : (c side).handler.writePacket turns m.packet m.payload = (.ok (), handler)) :
      Step aes key c (Function.update c side ((c side).advance (.message side m) rest handler))
  | read {c : Connection v κ ι} {side : Side} {m : Message v} {rest : Script v}
      (hdue : (c side).party.due = .message side.other m :: rest) (hready : (c side).Ready)
      (hpieced : (c side).Pieced m) {γ : Type}
      (handlePacket : Designator v.table → Program ReadError Nat γ) :
      Step aes key c (Function.update c side ((c side).advance (.message side.other m) rest
        ((c side).handler.readPacket handlePacket).2))
  | act {c : Connection v κ ι} {side : Side} {a : Act} {rest : Script v}
      {handler : ProtocolHandler v κ ι Segments Collected} (hdue : (c side).party.due = .act a :: rest)
      (hact : (c side).handler.perform aes key a = some handler) :
      Step aes key c (Function.update c side ((c side).advance (.act a) rest handler))

def Reaches (aes : Block → Block → Block) (key : Block) : Connection v κ ι → Connection v κ ι → Prop :=
  Relation.ReflTransGen (Step aes key)

end Connection

end Ends

/-! ### What holds of all runs -/

def DefaultReader.Decrypts {ρ : Type} : DefaultReader ρ → Prop
  | standard _ => False
  | decrypt _ => True

def DefaultWriterState.Encrypts {ω : Type} : DefaultWriterState ω → Prop
  | standard _ => False
  | encrypt _ => True

theorem DefaultReader.decrypts_iff {r : DefaultReader Segments} :
    r.Decrypts ↔ ∃ cipher, r.last = some cipher := by
  cases r <;> simp [Decrypts, last]

theorem DefaultReader.decrypts_push {s : Bytes} {hs : s ≠ []} {r : DefaultReader Segments} :
    (r.push s hs).Decrypts ↔ r.Decrypts := by
  cases r <;> rfl

theorem DefaultWriterState.encrypts_handOver {k : Nat} {w : DefaultWriterState Collected} :
    (w.handOver k).Encrypts ↔ w.Encrypts := by
  cases w <;> rfl

theorem Wrote.encrypts {frame : Bytes} {w w' : DefaultWriterState Collected} (h : Wrote frame w w') :
    w'.Encrypts ↔ w.Encrypts := by
  cases h <;> rfl

/-- Reader and writer have switched encryption on together. -/
structure Modes {κ ι ρ ω : Type} (switched : Prop) (p : DefaultStreamProvider κ ι ρ ω) : Prop where
  reader : p.reader.inner.Decrypts ↔ switched
  writer : p.writer.writer.Encrypts ↔ switched

section Modes
variable {κ ι ρ ω : Type} {switched : Prop} {p q : DefaultStreamProvider κ ι ρ ω}
  {aes : Block → Block → Block} {key : Block}

theorem Modes.standard (h : Modes switched p) (hunswitched : ¬ switched) :
    ∃ t s, p.reader.inner = .standard t ∧ p.writer.writer = .standard s := by
  obtain ⟨⟨t | d, buffer, capacity⟩, ⟨k, s | e⟩, threshold, state⟩ := p
  · exact ⟨t, s, rfl, rfl⟩
  · exact absurd (h.writer.mp trivial) hunswitched
  · exact absurd (h.reader.mp trivial) hunswitched
  · exact absurd (h.reader.mp trivial) hunswitched

theorem Modes.early (h : Modes switched p) (t : ρ) (ht : p.reader.inner = .standard t) : ¬ switched := by
  rw [← h.reader, ht]
  exact id

theorem DefaultStreamProvider.withEncryption_of_standard {t : ρ} {s : BufferedWriter ω}
    (ht : p.reader.inner = .standard t) (hs : p.writer.writer = .standard s) :
    p.withEncryption aes key = some {p with
      reader := {p.reader with inner := .decrypt ⟨.new aes key, t⟩}
      writer := {p.writer with writer := .encrypt ⟨.new aes key, s.writer, [], s.capacity⟩}} := by
  rw [withEncryption, ht, DefaultWriter.withEncryption, hs]
  rfl

end Modes

section Sound
variable {v : Version} {κ ι : Type} [Deflate κ] [Inflate ι]

/-- Some handler on the sender's side had come to where the message was sent, and could send it. -/
def Sendable (p : DefaultStreamProvider κ ι Segments Collected) (side : Side)
    (x : Script v × Message v) : Prop :=
  ∃ h, ProtocolHandler.Reaches (.new v (Bound.at side) p) (Script.transitions x.1) h ∧
    v.reciprocal h.state = some x.2.packets

abbrev Queue (v : Version) := Side → List (Script v × Message v)

/-- What holds of an end, and of what it sends. -/
structure Sound (Complete : Bytes → Bytes → Prop) (cipher : Cfb8) (script : Script v)
    (providers : Side → DefaultStreamProvider κ ι Segments Collected) (c : Connection v κ ι)
    (queue : Queue v) : Prop where
  following : Following script (fun side => (c side).party) queue
  handlers : ∀ side, ProtocolHandler.Reaches (.new v (Bound.at side) (providers side))
    (Script.transitions (c side).party.past) (c side).handler
  threshold : ∀ side,
    (c side).handler.provider.compressionThreshold = Script.threshold (c side).party.past
  modes : ∀ side, Modes (Switched Act.Encrypts (c side).party.past) (c side).handler.provider
  links : ∀ side, Link Complete Message.outgoing (fun x => Switched Act.Encrypts x.1) cipher
    (c side).handler.provider.writer.writer (c side.other).handler.provider.reader (queue side)
  sendable : ∀ side, ∀ x ∈ queue side, Sendable (providers side) side x

variable {plan : Plan} {Sent : κ → Bytes → Bytes → Prop} {Complete : Bytes → Bytes → Prop}
  {D : ι → Bytes → Bytes → Prop} {cipher : Cfb8} {script : Script v}
  {providers : Side → DefaultStreamProvider κ ι Segments Collected} {c : Connection v κ ι}
  {queue : Queue v} {side : Side} {rest : Script v} {aes : Block → Block → Block} {key : Block}

namespace Sound

/-- One end goes on, the other stays as it is. -/
theorem update (h : Sound Complete cipher script providers c queue) {e : End v κ ι} {queue' : Queue v}
    (hfollowing : Following script (Function.update (fun side => (c side).party) side e.party) queue')
    (hhandler : ProtocolHandler.Reaches (.new v (Bound.at side) (providers side))
      (Script.transitions e.party.past) e.handler)
    (hthreshold : e.handler.provider.compressionThreshold = Script.threshold e.party.past)
    (hmodes : Modes (Switched Act.Encrypts e.party.past) e.handler.provider)
    (hout : Link Complete Message.outgoing (fun x => Switched Act.Encrypts x.1) cipher
      e.handler.provider.writer.writer (c side.other).handler.provider.reader (queue' side))
    (hin : Link Complete Message.outgoing (fun x => Switched Act.Encrypts x.1) cipher
      (c side.other).handler.provider.writer.writer e.handler.provider.reader (queue' side.other))
    (hsendable : ∀ side, ∀ x ∈ queue' side, Sendable (providers side) side x) :
    Sound Complete cipher script providers (Function.update c side e) queue' where
  following := by
    have hparties : (fun s => (Function.update c side e s).party) =
        Function.update (fun side => (c side).party) side e.party := by
      funext s
      obtain rfl | rfl := s.eq_or side <;> simp
    rwa [hparties]
  handlers := by
    intro s
    obtain rfl | rfl := s.eq_or side
    · simpa using hhandler
    · simpa using h.handlers side.other
  threshold := by
    intro s
    obtain rfl | rfl := s.eq_or side
    · simpa using hthreshold
    · simpa using h.threshold side.other
  modes := by
    intro s
    obtain rfl | rfl := s.eq_or side
    · simpa using hmodes
    · simpa using h.modes side.other
  links := by
    intro s
    obtain rfl | rfl := s.eq_or side
    · simpa using hout
    · simpa using hin
  sendable := hsendable

theorem deliver (h : Sound Complete cipher script providers c queue) (side : Side) (k : Nat)
    (hs : (c side).unsent.take k ≠ []) :
    Sound Complete cipher script providers (c.deliver side k hs) queue := by
  have hself : c.deliver side k hs side = (c side).handOver k := by
    rw [Connection.deliver, Function.update_of_ne (Side.ne_other side), Function.update_self]
  have hother : c.deliver side k hs side.other = (c side.other).push ((c side).unsent.take k) hs :=
    Function.update_self ..
  have hparties : (fun s => (c.deliver side k hs s).party) = fun s => (c s).party := by
    funext s
    obtain rfl | rfl := s.eq_or side
    · rw [hself]
      rfl
    · rw [hother]
      rfl
  have hparty : ∀ s, (c.deliver side k hs s).party = (c s).party := congrFun hparties
  refine ⟨by rw [hparties]; exact h.following, ?_, ?_, ?_, ?_, h.sendable⟩ <;> intro s <;>
    try rw [hparty]
  · obtain rfl | rfl := s.eq_or side
    · rw [hself]
      exact .providerMut (h.handlers _) _
    · rw [hother]
      exact .providerMut (h.handlers side.other) _
  · obtain rfl | rfl := s.eq_or side
    · rw [hself]
      exact h.threshold _
    · rw [hother]
      exact h.threshold side.other
  · obtain rfl | rfl := s.eq_or side
    · rw [hself]
      exact ⟨(h.modes _).reader, DefaultWriterState.encrypts_handOver.trans (h.modes _).writer⟩
    · rw [hother]
      exact ⟨DefaultReader.decrypts_push.trans (h.modes side.other).reader, (h.modes side.other).writer⟩
  · obtain rfl | rfl := s.eq_or side
    · rw [hself, hother]
      exact (h.links _).deliver k hs
    · have hlink := h.links side.other
      rw [Side.other_other] at hlink
      rw [hother, Side.other_other, hself]
      exact hlink

theorem write (h : Sound Complete cipher script providers c queue)
    (hturning : Turning Act.Encrypts none script) (hdeflating : Deflating Sent Complete)
    {m : Message v} {handler : ProtocolHandler v κ ι Segments Collected}
    (hdue : (c side).party.due = .message side m :: rest)
    (haccepted : v.reciprocal (c side).handler.state = some m.packets)
    (hsize : m.payload.size = m.payload.bytes.length) {turns : Nat}
    (hok : (c side).handler.writePacket turns m.packet m.payload = (.ok (), handler)) :
    Sound Complete cipher script providers
      (Function.update c side ((c side).advance (.message side m) rest handler))
      (Function.update queue side (queue side ++ [((c side).party.past, m)])) := by
  have hreach := ProtocolHandler.Reaches.writePacket (h.handlers side) turns haccepted m.packet m.payload
  rw [hok] at hreach
  obtain ⟨p', hwritten, rfl⟩ := ok_of_borrowing hok
  obtain ⟨w', hwrite, rfl⟩ := ok_of_borrowing hwritten
  obtain ⟨frame, hframe, hwrote⟩ := writePacketInternal_wrote hdeflating hsize (h.links side).idle hwrite
  rw [h.threshold] at hframe
  have hswitched : Switched Act.Encrypts ((c side).party.past ++ [.message side m]) ↔
      Switched Act.Encrypts (c side).party.past := by
    simp [switched_append, not_switched_message]
  have hmodes := h.modes side
  refine h.update (h.following.send hdue) ?_ ?_ ?_ ?_ ?_ ?_
  · simpa [End.advance] using hreach
  · simpa [End.advance] using h.threshold side
  · refine ⟨hmodes.reader.trans hswitched.symm, ?_⟩
    exact hwrote.encrypts.trans (hmodes.writer.trans hswitched.symm)
  · rw [Function.update_self]
    refine (h.links side).write hframe hwrote ?_ ?_
    · intro s hs
      have hunswitched : ¬ Switched Act.Encrypts (c side).party.past := by
        rw [← hmodes.writer, hs]
        exact id
      obtain ⟨t, _, ht, -⟩ :=
        (h.modes side.other).standard (h.following.sends_unswitched hdue hunswitched)
      exact ⟨t, ht⟩
    · intro e t he ht
      have hbehind : Switched Act.Encrypts (c side).party.past := by
        rw [← hmodes.writer, he]
        trivial
      have hother : ¬ Switched Act.Encrypts (c side.other).party.past := by
        rw [← (h.modes side.other).reader, ht]
        exact id
      exact ⟨hbehind, h.following.sends_switched hturning hdue hbehind hother⟩
  · rw [Function.update_of_ne (Side.other_ne side)]
    have hlink := h.links side.other
    rwa [Side.other_other] at hlink
  · intro s x hx
    obtain rfl | rfl := s.eq_or side
    · rw [Function.update_self, List.mem_append, List.mem_singleton] at hx
      obtain hx | rfl := hx
      · exact h.sendable _ x hx
      · exact ⟨_, h.handlers _, haccepted⟩
    · rw [Function.update_of_ne (Side.other_ne side)] at hx
      exact h.sendable _ x hx

/-- The packet that is due is the next one on the way, and the state dispatches it. -/
theorem next (h : Sound Complete cipher script providers c queue) (hv : v.Generated plan)
    (hdistinct : plan.Distinct) {m : Message v}
    (hdue : (c side).party.due = .message side.other m :: rest) (hready : (c side).Ready) :
    ∃ queue', queue side.other = ((c side).party.past, m) :: queue' ∧
      (v.protocolState (c side).handler.state).designatorFromId m.packet.id =
        some (.packet m.packets m.packet) := by
  have himplements := hv.implements
  have hlink := h.links side.other
  rw [Side.other_other] at hlink
  obtain ⟨n, tail, hdecode, -⟩ := hready
  cases hqueue : queue side.other with
  | nil =>
    rw [hqueue] at hlink
    obtain ⟨-, hbuffer, hheld⟩ := hlink.clear
    rw [hbuffer, hheld] at hdecode
    exact absurd rfl (Leb128.ne_nil_of_decode hdecode)
  | cons x queue' =>
    obtain ⟨rfl, -⟩ := h.following.receive hdue hqueue
    refine ⟨queue', rfl, ?_⟩
    obtain ⟨sender, hsender, haccepted⟩ :=
      h.sendable side.other _ (by rw [hqueue]; exact List.mem_cons_self ..)
    have hhandler := h.handlers side
    rw [Bound.at_other side] at hhandler
    have hpeers := peers himplements hsender hhandler
    refine (himplements.packet_iff hdistinct).mpr ⟨?_, rfl⟩
    exact (himplements.writes haccepted).trans hpeers.symm

/-- A packet that is due and there is handled as what it was sent as. -/
theorem read (h : Sound Complete cipher script providers c queue) (hv : v.Generated plan)
    (hdistinct : plan.Distinct) (hideal : Ideal D)
    (hzlib : ∀ {output input} s, Complete output input → D (Inflate.resetAs s) output input)
    {m : Message v} (hdue : (c side).party.due = .message side.other m :: rest)
    (hready : (c side).Ready) (hpieced : (c side).Pieced m) {γ : Type}
    (handlePacket : Designator v.table → Program ReadError Nat γ) :
    ((c side).handler.readPacket handlePacket).1 =
        ((handlePacket (.packet m.packets m.packet)).eval List.length m.payload.bytes).1 ∧
      ∃ queue', Sound Complete cipher script providers (Function.update c side
        ((c side).advance (.message side.other m) rest
          ((c side).handler.readPacket handlePacket).2)) queue' := by
  obtain ⟨queue', hqueue, hknown⟩ := h.next hv hdistinct hdue hready
  obtain ⟨n, tail, hdecode, hn⟩ := hready
  have hmodes := h.modes side
  have hlink := h.links side.other
  rw [Side.other_other, hqueue] at hlink
  obtain ⟨frame, left, hframe, hread, hleft⟩ := hlink.read hmodes.early hdecode hn
  have hframe' : Framed Complete (c side).handler.provider.compressionThreshold
      (content m.packet.id m.payload) frame := by
    rw [h.threshold side]
    exact hframe
  have hknown' : (v.protocolState (c side).handler.state).designatorFromId
      (BitVec.ofNat 32 m.packet.id.toNat) =
      some (.packet m.packets m.packet) := by
    rwa [BitVec.ofNat_toNat, BitVec.setWidth_eq]
  have hid := decode_id m.packet.id m.payload.bytes
  have hdelivers := DefaultReader.arrived_delivers (c side).handler.provider.reader.inner.last
  -- A compressed frame has to be there in one fill, any other comes in pieces.
  have hhandled : ∃ handler, (c side).handler.readPacket handlePacket =
      (((handlePacket (.packet m.packets m.packet)).eval List.length m.payload.bytes).1, handler) ∧
        Buffered (DefaultReader.Arrived (c side).handler.provider.reader.inner.last)
          handler.provider.reader left := by
    by_cases hcompressed : ∃ least, (c side).handler.provider.compressionThreshold = some least ∧
        least ≤ (content m.packet.id m.payload).length
    · obtain ⟨least, hthreshold, hleast⟩ := hcompressed
      have hpiece := DefaultReader.onePiece hread (hpieced least hthreshold hleast)
      have hhandles := ProtocolHandler.handles hideal hzlib hdelivers.onePiece
        hdelivers.onePiece_fills hknown' hid hframe' hpiece
      obtain ⟨handler, hreply, hleft'⟩ :=
        hhandles.read (fun _ _ _ => hdelivers.onePiece_whole) handlePacket
      exact ⟨handler, hreply, hleft'.buffered⟩
    · have hhandles :=
        ProtocolHandler.handles hideal hzlib hdelivers.buffered hdelivers.fills hknown' hid hframe' hread
      have hthere : (c side).handler.There
          (Buffered (DefaultReader.Arrived (c side).handler.provider.reader.inner.last))
          (content m.packet.id m.payload) :=
        fun least hthreshold hleast => absurd ⟨least, hthreshold, hleast⟩ hcompressed
      exact hhandles.read hthere handlePacket
  obtain ⟨handler, hreply, hleft'⟩ := hhandled
  have hreach := ProtocolHandler.Reaches.readPacket (h.handlers side) handlePacket
  have hswitched : Switched Act.Encrypts ((c side).party.past ++ [.message side.other m]) ↔
      Switched Act.Encrypts (c side).party.past := by
    simp [switched_append, not_switched_message]
  have hafter := congrArg Prod.snd hreply
  have hdecrypts : ((c side).handler.readPacket handlePacket).2.provider.reader.inner.Decrypts ↔
      (c side).handler.provider.reader.inner.Decrypts := by
    obtain ⟨hlast, -⟩ := Link.held_of_arrived hleft'
    rw [hafter, DefaultReader.decrypts_iff, DefaultReader.decrypts_iff, hlast]
  refine ⟨congrArg Prod.fst hreply, Function.update queue side.other queue',
    h.update (h.following.receive hdue hqueue).2 ?_ ?_ ?_ ?_ ?_ ?_⟩
  · simpa [End.advance] using hreach
  · exact (h.threshold side).trans (Script.threshold_message ..).symm
  · exact ⟨hdecrypts.trans (hmodes.reader.trans hswitched.symm), hmodes.writer.trans hswitched.symm⟩
  · rw [Function.update_of_ne (Side.ne_other side)]
    exact h.links side
  · rw [Function.update_self]
    simp only [End.advance, hafter]
    exact hleft hleft'
  · intro s x hx
    obtain rfl | rfl := s.eq_or side
    · rw [Function.update_of_ne (Side.ne_other _)] at hx
      exact h.sendable _ x hx
    · rw [Function.update_self] at hx
      exact h.sendable _ x (by rw [hqueue]; exact List.mem_cons_of_mem _ hx)

/-- Switching encryption on does not panic. -/
theorem encrypts (h : Sound Complete cipher script providers c queue)
    (hturning : Turning Act.Encrypts none script)
    (hdue : (c side).party.due = .act .withEncryption :: rest) (aes : Block → Block → Block)
    (key : Block) :
    ∃ t s, (c side).handler.provider.reader.inner = .standard t ∧
      (c side).handler.provider.writer.writer = .standard s ∧
      (c side).handler.provider.withEncryption aes key = some {(c side).handler.provider with
        reader := {(c side).handler.provider.reader with inner := .decrypt ⟨.new aes key, t⟩}
        writer := {(c side).handler.provider.writer with
          writer := .encrypt ⟨.new aes key, s.writer, [], s.capacity⟩}} := by
  obtain ⟨t, s, ht, hs⟩ := (h.modes side).standard (h.following.switches_once hturning hdue trivial)
  exact ⟨t, s, ht, hs, DefaultStreamProvider.withEncryption_of_standard ht hs⟩

theorem act (h : Sound Complete (.new aes key) script providers c queue)
    (hturning : Turning Act.Encrypts none script) {a : Act}
    {handler : ProtocolHandler v κ ι Segments Collected}
    (hdue : (c side).party.due = .act a :: rest)
    (hact : (c side).handler.perform aes key a = some handler) :
    Sound Complete (.new aes key) script providers
      (Function.update c side ((c side).advance (.act a) rest handler)) queue := by
  have hmodes := h.modes side
  have hlink := h.links side.other
  rw [Side.other_other] at hlink
  cases a with
  | setCompressionThreshold threshold =>
    cases hact
    have hswitched :
        Switched Act.Encrypts ((c side).party.past ++ [.act (.setCompressionThreshold threshold)]) ↔
        Switched Act.Encrypts (c side).party.past := by
      simp [switched_act, Act.Encrypts]
    refine h.update (h.following.act hdue) ?_ ?_ ?_ (h.links side) hlink h.sendable
    · simpa [End.advance, Script.transitions_act, Script.transition] using
        ProtocolHandler.Reaches.providerMut (h.handlers side) _
    · simp [End.advance, Script.settle, DefaultStreamProvider.setCompressionThreshold]
    · exact ⟨hmodes.reader.trans hswitched.symm, hmodes.writer.trans hswitched.symm⟩
  | take t =>
    have hreach := ProtocolHandler.Reaches.take (h.handlers side) hact
    obtain ⟨state, -, rfl⟩ := Option.map_eq_some_iff.mp hact
    have hswitched : Switched Act.Encrypts ((c side).party.past ++ [.act (.take t)]) ↔
        Switched Act.Encrypts (c side).party.past := by
      simp [switched_act, Act.Encrypts]
    refine h.update (h.following.act hdue) ?_ ?_ ?_ (h.links side) hlink h.sendable
    · simpa [End.advance, Script.transitions_act, Script.transition] using hreach
    · simpa [End.advance, Script.settle] using h.threshold side
    · exact ⟨hmodes.reader.trans hswitched.symm, hmodes.writer.trans hswitched.symm⟩
  | withEncryption =>
    obtain ⟨t, s, ht, hs, hswitch⟩ := h.encrypts hturning hdue aes key
    rw [ProtocolHandler.perform, hswitch] at hact
    cases hact
    have hswitched : Switched Act.Encrypts ((c side).party.past ++ [.act .withEncryption]) :=
      ⟨.withEncryption, trivial, by simp⟩
    have hunswitched : ∀ s, (∀ w, (c s).handler.provider.writer.writer = .standard w →
        ∀ x ∈ queue s, ¬ Switched Act.Encrypts x.1) := by
      intro s w hw x hx hlate
      have hpast := (h.modes s).writer.mpr (hlate.mono (h.following.queued hx).2)
      rw [hw] at hpast
      exact hpast
    refine h.update (h.following.act hdue) ?_ ?_ ?_ ?_ ?_ h.sendable
    · simpa [End.advance, Script.transitions_act, Script.transition] using
        ProtocolHandler.Reaches.providerMut (h.handlers side) _
    · simpa [End.advance, Script.settle] using h.threshold side
    · exact ⟨⟨fun _ => hswitched, fun _ => trivial⟩, ⟨fun _ => hswitched, fun _ => trivial⟩⟩
    · have hout := h.links side
      rw [hs] at hout
      exact hout.writerSwitches (hunswitched side s hs)
    · exact hlink.readerSwitches ht (h.following.switches hdue trivial) (hunswitched side.other)

end Sound

/-- As `new` makes it on a transport that nothing has come over. -/
def DefaultStreamProvider.Fresh (p : DefaultStreamProvider κ ι Segments Collected) : Prop :=
  ∃ compressionState decompressionState bufferSize, 0 < bufferSize ∧
    p = .new ⟨[], by simp⟩ ⟨[]⟩ compressionState decompressionState bufferSize

omit [Deflate κ] [Inflate ι] in
theorem Connection.start_provider (side : Side) :
    (Connection.start script providers side).handler.provider = providers side := by
  cases side <;> rfl

theorem Sound.start (hfresh : ∀ side, (providers side).Fresh) :
    Sound Complete cipher script providers (.start script providers) fun _ => [] where
  following := Following.start script
  handlers _ := .start
  threshold side := by
    obtain ⟨k, s, bufferSize, -, hp⟩ := hfresh side
    rw [Connection.start_provider, hp]
    rfl
  modes side := by
    obtain ⟨k, s, bufferSize, -, hp⟩ := hfresh side
    have hnone : ¬ Switched Act.Encrypts (Connection.start script providers side).party.past := by
      simp [Connection.start, Switched]
    rw [Connection.start_provider, hp]
    exact ⟨⟨False.elim, fun h => hnone h⟩, ⟨False.elim, fun h => hnone h⟩⟩
  links side := by
    obtain ⟨k, s, bufferSize, hroom, hp⟩ := hfresh side
    obtain ⟨k', s', bufferSize', hcap, hp'⟩ := hfresh side.other
    rw [Connection.start_provider, Connection.start_provider, hp, hp']
    exact .plain ⟨rfl, hroom⟩ ⟨hcap, [], ⟨rfl, rfl⟩, rfl⟩ .nil
  sendable _ _ hx := nomatch hx

section Run
variable (hv : v.Generated plan) (hdistinct : plan.Distinct) (hdeflating : Deflating Sent Complete)
  (hideal : Ideal D)
  (hzlib : ∀ {output input} s, Complete output input → D (Inflate.resetAs s) output input)
include hv hdistinct hdeflating hideal hzlib

theorem Sound.step (h : Sound Complete (.new aes key) script providers c queue)
    (hturning : Turning Act.Encrypts none script) {c' : Connection v κ ι} (hstep : c.Step aes key c') :
    ∃ queue', Sound Complete (.new aes key) script providers c' queue' := by
  cases hstep with
  | deliver side k hs => exact ⟨queue, h.deliver side k hs⟩
  | write hdue haccepted hsize turns hok =>
    exact ⟨_, h.write hturning hdeflating hdue haccepted hsize hok⟩
  | read hdue hready hpieced handlePacket =>
    exact (h.read hv hdistinct hideal hzlib hdue hready hpieced handlePacket).2
  | act hdue hact => exact ⟨queue, h.act hturning hdue hact⟩

theorem Sound.run (hturning : Turning Act.Encrypts none script) (hfresh : ∀ side, (providers side).Fresh)
    (hreach : (Connection.start script providers).Reaches aes key c) :
    ∃ queue, Sound Complete (.new aes key) script providers c queue := by
  induction hreach with
  | refl => exact ⟨_, Sound.start hfresh⟩
  | tail _ hstep ih =>
    obtain ⟨queue, h⟩ := ih
    exact h.step hv hdistinct hdeflating hideal hzlib hturning hstep

/-- **Two ends that follow one script never misunderstand each other.** However their steps and the
network's interleave, a packet that is due and has arrived, in one piece if it is compressed, is
handled as what it was sent as, encryption is never switched on twice, and in the end nothing is
left over. -/
theorem connection_understood (hturning : Turning Act.Encrypts none script)
    (hfresh : ∀ side, (providers side).Fresh)
    (hreach : (Connection.start script providers).Reaches aes key c) :
    (∀ {side m rest}, (c side).party.due = .message side.other m :: rest → (c side).Ready →
      (c side).Pieced m →
      ∀ {γ : Type} (handlePacket : Designator v.table → Program ReadError Nat γ),
        ((c side).handler.readPacket handlePacket).1 =
          ((handlePacket (.packet m.packets m.packet)).eval List.length m.payload.bytes).1) ∧
    (∀ {side rest}, (c side).party.due = .act .withEncryption :: rest →
      ((c side).handler.perform aes key .withEncryption).isSome) ∧
    ((∀ side, (c side).party.due = []) → ∀ side, (c side).unsent = [] ∧
      (c side).handler.provider.reader.buffer = [] ∧
        (c side).handler.provider.reader.inner.held = []) := by
  obtain ⟨queue, h⟩ := Sound.run hv hdistinct hdeflating hideal hzlib hturning hfresh hreach
  refine ⟨?_, ?_, ?_⟩
  · intro side m rest hdue hready hpieced γ handlePacket
    exact (h.read hv hdistinct hideal hzlib hdue hready hpieced handlePacket).1
  · intro side rest hdue
    obtain ⟨t, s, -, -, hswitch⟩ := h.encrypts hturning hdue aes key
    rw [ProtocolHandler.perform, hswitch]
    rfl
  · intro hdone side
    have hout := h.links side
    have hin := h.links side.other
    rw [h.following.done hdone] at hout hin
    rw [Side.other_other] at hin
    exact ⟨hout.clear.1, hin.clear.2⟩

end Run

end Sound

/-- Both ends log in, encrypt and compress, and the client then reads what the server has sent. -/
theorem connection_understood_login :
    let status : Tables := ⟨⟨[⟨0, "Response"⟩, ⟨1, "Ping"⟩], by decide, by decide⟩,
      ⟨[⟨0, "Request"⟩, ⟨1, "Ping"⟩], by decide, by decide⟩⟩
    let login : Tables :=
      ⟨⟨[⟨0, "Disconnect"⟩, ⟨1, "EncryptionRequest"⟩, ⟨2, "LoginSuccess"⟩], by decide, by decide⟩,
      ⟨[⟨0, "LoginStart"⟩, ⟨1, "EncryptionResponse"⟩], by decide, by decide⟩⟩
    let play : Tables := ⟨⟨[⟨0, "KeepAlive"⟩, ⟨1, "JoinGame"⟩], by decide, by decide⟩,
      ⟨[⟨0, "KeepAlive"⟩, ⟨1, "ChatMessage"⟩], by decide, by decide⟩⟩
    let v := buildProtocolPre1_21_2 ⟨status, login, play⟩
    let aes : Block → Block → Block := fun _ _ _ => 1
    let key : Block := fun _ => 0
    let compressor : Stored.Deflater := ⟨false, false, [], Stored.adlerStart, [], Stored.start⟩
    let provider : DefaultStreamProvider Stored.Deflater Stored.Inflater Segments Collected :=
      .new ⟨[], by simp⟩ ⟨[]⟩ compressor ⟨Stored.start, []⟩ 64
    let success : Message v := ⟨.clientboundLoginPacket, ⟨"LoginSuccess", by decide⟩, ⟨1, [[9]], none⟩⟩
    let script : Script v := [.act (.take .intoLoginState), .act .withEncryption,
      .act (.setCompressionThreshold (some 0)), .message .right success]
    let act (c : Connection v Stored.Deflater Stored.Inflater) (side : Side) (a : Act)
      (rest : Script v) :=
      Function.update c side ((c side).advance (.act a) rest
        (((c side).handler.perform aes key a).getD (c side).handler))
    let started (c : Connection v Stored.Deflater Stored.Inflater) (side : Side) :=
      act (act (act c side (.take .intoLoginState) (script.drop 1)) side .withEncryption
        (script.drop 2)) side (.setCompressionThreshold (some 0)) (script.drop 3)
    let c₁ := started (started (.start script fun _ => provider) .left) .right
    let c₂ : Connection v Stored.Deflater Stored.Inflater :=
      Function.update c₁ .right ((c₁ .right).advance (.message .right success) []
        ((c₁ .right).handler.writePacket 3 success.packet success.payload).2)
    ∃ hs, ((c₂.deliver .right 15 hs .left).handler.readPacket fun _ => readU8).1 = .ok 9 := by
  intro status login play v aes key compressor provider success script act started c₁ c₂
  have hdistinct : (BuildProtocolPre1_21_2.Input.plan ⟨status, login, play⟩).Distinct := by
    intro s table htable
    obtain ⟨bound, phase⟩ := s
    cases phase <;> cases bound <;> cases htable <;> exact by decide
  have hacts : ∀ {c : Connection v Stored.Deflater Stored.Inflater} {side : Side} {a : Act}
      {rest : Script v},
      (c side).party.due = .act a :: rest → ((c side).handler.perform aes key a).isSome →
      c.Step aes key (act c side a rest) := by
    intro c side a rest hdue hsome
    obtain ⟨handler, hhandler⟩ := Option.isSome_iff_exists.mp hsome
    simp only [act, hhandler, Option.getD_some]
    exact .act hdue hhandler
  have hstarted : (Connection.start script fun _ => provider).Reaches aes key c₁ :=
    (((((Relation.ReflTransGen.refl.tail (hacts rfl rfl)).tail (hacts rfl rfl)).tail
      (hacts rfl rfl)).tail (hacts rfl rfl)).tail (hacts rfl rfl)).tail (hacts rfl rfl)
  have hok : ((c₁ .right).handler.writePacket 3 success.packet success.payload).1 = .ok () := by
    decide +kernel
  have harrived : ∀ hs,
      Leb128.decode 3 ((c₂.deliver .right 15 hs .left).handler.provider.reader.buffer ++
      (c₂.deliver .right 15 hs .left).handler.provider.reader.inner.held) =
      some (14, [2, 0x78, 1, 1, 2, 0, 0xfd, 0xff, 2, 9, 0, 15, 0, 12]) := by decide +kernel
  have hs : (c₂ .right).unsent.take 15 ≠ [] := by decide +kernel
  have hreach : (Connection.start script fun _ => provider).Reaches aes key (c₂.deliver .right 15 hs) :=
    (hstarted.tail (.write rfl rfl rfl 3 (replied hok))).tail (.deliver .right 15 hs)
  have hturning : Turning Act.Encrypts none script := by
    simp [script, Turning, Act.Encrypts, Switched]
  obtain ⟨hunderstood, -, -⟩ :=
    connection_understood (.buildProtocolPre1_21_2 ⟨status, login, play⟩) hdistinct
    Stored.Deflater.deflating Stored.Inflater.ideal
      (fun s h => Stored.Deflater.Complete.yields h s) hturning
    (fun _ => ⟨compressor, _, 64, by decide, rfl⟩) hreach
  have hpieced : (c₂.deliver .right 15 hs .left).Pieced success := by
    intro least _ _
    exact .inr ⟨rfl, .inr ⟨_, rfl, (List.length_take_le 15 _).trans (show 15 ≤ 64 by decide)⟩⟩
  have hready : (c₂.deliver .right 15 hs .left).Ready := ⟨14, _, harrived hs, by decide⟩
  have hread := @hunderstood .left success [] rfl hready hpieced _ fun _ => readU8
  exact ⟨hs, hread⟩

end Protocraft
