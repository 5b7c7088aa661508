import Protocraft.Protocol.Framing
import Protocraft.Protocol.Provider
import Protocraft.Protocol.Segmentation
import Protocraft.Protocol.Versions

/-! The two ends of a version.

A handler takes its state through the transitions of its version, and packets are read and
written in between. Two handlers that began on opposite sides and have taken the same
transitions are in states of one phase (`Reaches.place`), so what one writes the other
dispatches to the designator it was written with (`both_ends_agree`). -/
namespace Protocraft
open Protocraft.Stream

/-! ### Frames in pieces -/

section Dispatch
variable {δ α : Type} {S : ProtocolState δ} {handlePacket : δ → Program ReadError Nat α}

/-- What a handler comes to on a reader of the packet. -/
def Handled (handler : Program ReadError Nat α) (result : Except ReadError α) : Prop :=
  ∃ (σ : Type) (_ : Read σ) (t : Take σ), result = (handler.run Take.limit t).1

/-- The packet of this id has gone where the state says. -/
def Dispatched (S : ProtocolState δ) (handlePacket : δ → Program ReadError Nat α) (id : I32)
    (invocation : Invocation α) : Prop :=
  match S.designatorFromId id with
  | some designator => ∃ result, invocation = .handled result ∧ Handled (handlePacket designator) result
  | none => invocation = .unknown S.stateName id

/-- However the reader stalls, the helper dispatches by the id or fails. -/
theorem handleHelper_dispatched {σ : Type} [Read σ] {Q : Take σ → Bytes → Prop} {Stalled : Take σ → Prop}
    (h : Delivers Q Stalled) (hlimit : ∀ {t c}, Q t c → t.limit = c.length) {t : Take σ}
    {c payload : Bytes} {n : Nat} (ht : Q t c) (hs : ¬ Stalled t)
    (hid : Leb128.decode 5 c = some (n, payload)) {invocation : Invocation α}
    (hok : ((handleHelper S handlePacket).run Take.limit t).1 = .ok invocation) :
    Dispatched S handlePacket (BitVec.ofNat 32 n) invocation := by
  rcases hread : (VarInt.fromReader : Program ReadError Nat VarInt).run Take.limit t with ⟨e | id, t₁⟩
  · rw [handleHelper_failed_run hread] at hok
    cases hok
  · have hgoing : ¬ Stalled t₁ := by
      have hread' := VarInt.fromReader_strict.run_ok h ht hs (congrArg Prod.fst hread)
      rwa [hread] at hread'
    have hexact := (Program.run_did h hlimit (VarInt.fromReader : Program ReadError Nat VarInt) ht).exact
      (by rwa [hread])
    rw [hread, VarInt.fromReader_eval List.length hid] at hexact
    cases hexact.1
    unfold Dispatched
    split
    next designator hdesignator =>
      rw [handleHelper_known_run hread hdesignator] at hok
      dsimp only at hok
      rcases hdiscard : discardRemaining.run Take.limit ((handlePacket designator).run Take.limit t₁).2
        with ⟨e | _, t₂⟩ <;> rw [hdiscard] at hok <;> cases hok
      exact ⟨_, rfl, σ, _, t₁, rfl⟩
    next hdesignator =>
      rw [handleHelper_unknown_run hread hdesignator] at hok
      cases hok
      rfl

variable {ι ρ : Type} [Inflate ι] [BufRead ρ] {D : ι → Bytes → Bytes → Prop}
  {Complete : Bytes → Bytes → Prop} {R : ρ → Bytes → Prop}

/-- A frame that arrives in any pieces is dispatched by its id, unless reading it fails. -/
theorem readFrame_dispatched (h : Decoding D)
    (hzlib : ∀ {output input} s, Complete output input → D (Inflate.resetAs s) output input)
    (hdelivers : Delivers R Never) (hfills : Fills R) {threshold : Option Nat}
    {content payload frame rest : Bytes} {n : Nat} (hframe : Framed Complete threshold content frame)
    (hid : Leb128.decode 5 content = some (n, payload)) {r : ρ} (hr : R r (frame ++ rest)) (s : ι)
    {invocation : Invocation α}
    (hok : (readFrame S handlePacket threshold (DecompressionStateWrappedReader.mk s r)).1 =
      .ok invocation) :
    Dispatched S handlePacket (BitVec.ofNat 32 n) invocation := by
  have hne : content ≠ [] := Leb128.ne_nil_of_decode hid
  obtain ⟨t, ht, hread⟩ | ⟨t, z, least, ht, hz, -, -, hread⟩ :=
    readFrame_opened S handlePacket hdelivers hframe hne hr
  · rw [hread s] at hok
    exact handleHelper_dispatched (hdelivers.toYields.take rest) (fun ht => ht.2.symm) ht id hid hok
  · -- Only of a logged decompressor can it be said that it has stalled.
    have hstart : Taken (DecompressionReader.InflatingLogged D (Taken R rest)) []
        (⟨⟨⟨Inflate.resetAs s, []⟩, t⟩, content.length⟩ :
          Take (DecompressionReader (Logged ι) (Take ρ))) content :=
      ⟨⟨z, ht, by rw [List.append_nil]; exact hzlib s hz⟩, rfl⟩
    have hfresh : ¬ (Logged.mk (Inflate.resetAs s) []).Silent := by
      intro h
      obtain ⟨call, hcall, -⟩ := h
      cases hcall
    have hyields := DecompressionReader.yields h (hfills.take rest)
    have hunlogged := @handleHelper_unlogged _ _ ι _ _ _ S handlePacket
      ⟨⟨⟨Inflate.resetAs s, []⟩, t⟩, content.length⟩
    rw [hread s] at hok
    rw [DecompressionReader.unlogged] at hunlogged
    rw [hunlogged] at hok
    exact handleHelper_dispatched (hyields.take []) (fun ht => ht.2.symm) hstart hfresh hid hok

end Dispatch

/-! ### Handlers -/

/-- `write_packet_internal` with this provider. -/
def DefaultStreamProvider.writePacketInternal {κ ι ρ ω : Type} [Deflate κ] [Write ω]
    (turns : Nat) (id : I32) (packet : Packet) :
    Action (Stop WriteError) (DefaultStreamProvider κ ι ρ ω) Unit := fun p =>
  borrowing DefaultStreamProvider.writer (fun w p => {p with writer := w})
    (Protocraft.writePacketInternal turns p.compressionThreshold id packet) p

/-- A handler with its provider; the state is a type in the source. -/
structure ProtocolHandler (v : Version) (κ ι ρ ω : Type) where
  provider : DefaultStreamProvider κ ι ρ ω
  state : v.State

namespace ProtocolHandler
variable {v : Version} {κ ι ρ ω : Type}

def newServerside (v : Version) (provider : DefaultStreamProvider κ ι ρ ω) : ProtocolHandler v κ ι ρ ω :=
  ⟨provider, v.newServerside⟩

def newClientside (v : Version) (provider : DefaultStreamProvider κ ι ρ ω) : ProtocolHandler v κ ι ρ ω :=
  ⟨provider, v.newClientside⟩

/-- The handler whose incoming packets are bound so. -/
def new (v : Version) : Bound → DefaultStreamProvider κ ι ρ ω → ProtocolHandler v κ ι ρ ω
  | .clientbound => newClientside v
  | .serverbound => newServerside v

/-- `into_status_state`, `into_login_state` and `into_next_state`, where there are such. -/
def take (t : Transition) (h : ProtocolHandler v κ ι ρ ω) : Option (ProtocolHandler v κ ι ρ ω) :=
  (v.take t h.state).map fun state => ⟨h.provider, state⟩

def readPacket [Inflate ι] [Read ρ] {α : Type}
    (handlePacket : Designator v.table → Program ReadError Nat α) :
    Action ReadError (ProtocolHandler v κ ι ρ ω) α := fun h =>
  borrowing provider (fun p h => {h with provider := p})
    (DefaultStreamProvider.readPacket (v.protocolState h.state) handlePacket) h

/-- The packet is of the state's reciprocal. -/
def writePacket [Deflate κ] [Write ω] (turns : Nat) {packets : v.Packets}
    (packet : (v.table packets).Packet) (payload : Packet) :
    Action (Stop WriteError) (ProtocolHandler v κ ι ρ ω) Unit :=
  borrowing provider (fun p h => {h with provider := p})
    (DefaultStreamProvider.writePacketInternal turns packet.id payload)

/-- What a handler goes through: it has taken these transitions, and in between packets were read and
written, and its provider changed, whatever came of it. -/
inductive Reaches [Deflate κ] [Inflate ι] [Read ρ] [Write ω] (start : ProtocolHandler v κ ι ρ ω) :
    List Transition → ProtocolHandler v κ ι ρ ω → Prop
  | start : Reaches start [] start
  | take {taken : List Transition} {h h' : ProtocolHandler v κ ι ρ ω} (hreach : Reaches start taken h)
      {t : Transition} (htake : h.take t = some h') : Reaches start (taken ++ [t]) h'
  | readPacket {taken : List Transition} {h : ProtocolHandler v κ ι ρ ω} (hreach : Reaches start taken h)
      {α : Type} (handlePacket : Designator v.table → Program ReadError Nat α) :
      Reaches start taken (h.readPacket handlePacket).2
  | writePacket {taken : List Transition} {h : ProtocolHandler v κ ι ρ ω}
      (hreach : Reaches start taken h)
      (turns : Nat) {packets : v.Packets} (haccepted : v.reciprocal h.state = some packets)
      (packet : (v.table packets).Packet) (payload : Packet) :
      Reaches start taken (h.writePacket turns packet payload).2
  | providerMut {taken : List Transition} {h : ProtocolHandler v κ ι ρ ω}
      (hreach : Reaches start taken h)
      (provider : DefaultStreamProvider κ ι ρ ω) : Reaches start taken {h with provider := provider}

theorem new_place {plan : Plan} (hv : v.Implements plan) (bound : Bound)
    (provider : DefaultStreamProvider κ ι ρ ω) :
    v.place (new v bound provider).state = ⟨bound, .handshake⟩ := by
  cases bound with
  | clientbound => exact hv.newClientside
  | serverbound => exact hv.newServerside

section Reaches
variable [Deflate κ] [Inflate ι] [Read ρ] [Write ω] {plan : Plan}

/-- Where a handler is depends on the transitions that it has taken, and nothing else. -/
theorem Reaches.place (hv : v.Implements plan) {start h : ProtocolHandler v κ ι ρ ω}
    {taken : List Transition} (hreach : Reaches start taken h) : ∃ phase,
      taken.foldlM (fun phase t => plan.take t phase) (v.place start.state).phase = some phase ∧
      v.place h.state = ⟨(v.place start.state).bound, phase⟩ := by
  induction hreach with
  | start => exact ⟨_, rfl, rfl⟩
  | @take taken h h' _ t htake ih =>
    obtain ⟨phase, htaken, hplace⟩ := ih
    obtain ⟨state, hstate, rfl⟩ := Option.map_eq_some_iff.mp htake
    have hstep := hv.take t h.state
    rw [hstate, hplace] at hstep
    obtain ⟨phase', hphase, hplace'⟩ := Option.map_eq_some_iff.mp hstep.symm
    refine ⟨phase', ?_, hplace'.symm⟩
    rw [List.foldlM_append, htaken]
    simpa using hphase
  | readPacket _ _ ih => exact ih
  | writePacket _ _ _ _ _ ih => exact ih
  | providerMut _ _ ih => exact ih

end Reaches

section Reads
variable [Inflate ι] [Read ρ]

def readFrame {α : Type} (handlePacket : Designator v.table → Program ReadError Nat α)
    (h : ProtocolHandler v κ ι ρ ω) : Except ReadError (Invocation α) :=
  (Protocraft.readFrame (v.protocolState h.state) handlePacket h.provider.compressionThreshold
    h.provider.readStream).1

/-- The frame of a packet is read without fail: it is not compressed, or all of it is there. -/
def There (h : ProtocolHandler v κ ι ρ ω) (R : BufReader (DefaultReader ρ) → Bytes → Prop)
    (content : Bytes) : Prop :=
  ∀ least, h.provider.compressionThreshold = some least → least ≤ content.length → Whole R

/-- However the next frame arrives the handler for this designator gets the packet, unless reading it
fails; and where that cannot be, it gets the payload, and the frame is at an end. -/
structure Handles (h : ProtocolHandler v κ ι ρ ω) (R : BufReader (DefaultReader ρ) → Bytes → Prop)
    (designator : Designator v.table) (content payload rest : Bytes) : Prop where
  dispatched : ∀ {α : Type} {handlePacket : Designator v.table → Program ReadError Nat α}
    {invocation : Invocation α}, h.readFrame handlePacket = .ok invocation →
    ∃ result, invocation = .handled result ∧ Handled (handlePacket designator) result
  read : h.There R content → ∀ {α : Type}
    (handlePacket : Designator v.table → Program ReadError Nat α), ∃ h',
    h.readPacket handlePacket = (((handlePacket designator).eval List.length payload).1, h') ∧
      R h'.provider.reader rest

/-- And it is reported as a packet that the state does not know. -/
structure Refuses (h : ProtocolHandler v κ ι ρ ω)
    (R : BufReader (DefaultReader ρ) → Bytes → Prop) (id : I32) (content : Bytes) : Prop where
  dispatched : ∀ {α : Type} {handlePacket : Designator v.table → Program ReadError Nat α}
    {invocation : Invocation α}, h.readFrame handlePacket = .ok invocation →
    invocation = .unknown (v.protocolState h.state).stateName id
  read : h.There R content → ∀ {α : Type} (handlePacket : Designator v.table → Program ReadError Nat α),
    (h.readPacket handlePacket).1 = .error (.unknownPacket (v.protocolState h.state).stateName id)

variable {D : ι → Bytes → Bytes → Prop} {Complete : Bytes → Bytes → Prop}
  {R : BufReader (DefaultReader ρ) → Bytes → Prop} {h : ProtocolHandler v κ ι ρ ω} {n : Nat}
  {content payload frame rest : Bytes}

theorem readPacket_eq {α : Type} {handlePacket : Designator v.table → Program ReadError Nat α}
    {reply : Except ReadError (Invocation α)} {s' : ι} {r' : BufReader (DefaultReader ρ)}
    (hread : Protocraft.readFrame (v.protocolState h.state) handlePacket h.provider.compressionThreshold
      (DecompressionStateWrappedReader.mk h.provider.decompressionState h.provider.reader) =
        (reply, ⟨s', r'⟩)) :
    h.readPacket handlePacket = (reply.bind Invocation.result,
      {h with provider := {h.provider with reader := r', decompressionState := s'}}) := by
  simp only [readPacket, borrowing_apply, DefaultStreamProvider.readPacket,
    DefaultStreamProvider.readStream, readPacket_apply, hread]

theorem handles (hideal : Ideal D)
    (hzlib : ∀ {output input} s, Complete output input → D (Inflate.resetAs s) output input)
    (hdelivers : Delivers R Never) (hfills : Fills R) {designator : Designator v.table}
    (hknown : (v.protocolState h.state).designatorFromId (BitVec.ofNat 32 n) = some designator)
    (hid : Leb128.decode 5 content = some (n, payload))
    (hframe : Framed Complete h.provider.compressionThreshold content frame)
    (hr : R h.provider.reader (frame ++ rest)) : h.Handles R designator content payload rest where
  dispatched := by
    intro α handlePacket invocation hok
    have hdispatched := readFrame_dispatched hideal.toDecoding hzlib hdelivers hfills hframe hid hr _ hok
    rwa [Dispatched, hknown] at hdispatched
  read := by
    intro hthere α handlePacket
    have hne : content ≠ [] := Leb128.ne_nil_of_decode hid
    have heval := @handleHelper_known _ _ _ handlePacket _ _ _ _ hid hknown
    obtain ⟨s', r', hread, hleft⟩ := readFrame_eval hideal hzlib hdelivers hfills hthere hframe
      hne heval hr h.provider.decompressionState
    exact ⟨_, readPacket_eq hread, hleft rfl⟩

theorem refuses (hideal : Ideal D)
    (hzlib : ∀ {output input} s, Complete output input → D (Inflate.resetAs s) output input)
    (hdelivers : Delivers R Never) (hfills : Fills R)
    (hunknown : (v.protocolState h.state).designatorFromId (BitVec.ofNat 32 n) = none)
    (hid : Leb128.decode 5 content = some (n, payload))
    (hframe : Framed Complete h.provider.compressionThreshold content frame)
    (hr : R h.provider.reader (frame ++ rest)) : h.Refuses R (BitVec.ofNat 32 n) content where
  dispatched := by
    intro α handlePacket invocation hok
    have hdispatched := readFrame_dispatched hideal.toDecoding hzlib hdelivers hfills hframe hid hr _ hok
    rwa [Dispatched, hunknown] at hdispatched
  read := by
    intro hthere α handlePacket
    have hne : content ≠ [] := Leb128.ne_nil_of_decode hid
    have heval := @handleHelper_unknown _ _ _ handlePacket _ _ _ hid hunknown
    obtain ⟨s', r', hread, -⟩ := readFrame_eval hideal hzlib hdelivers hfills hthere hframe hne heval hr
      h.provider.decompressionState
    exact congrArg Prod.fst (readPacket_eq hread)

end Reads

end ProtocolHandler

section Agreement
variable {v : Version} {plan : Plan} {κ ι ρ ω κ' ι' ρ' ω' : Type} [Deflate κ] [Inflate ι]
  [Read ρ] [Write ω] [Deflate κ'] [Inflate ι'] [Read ρ'] [Write ω']
  {Sent : κ → Bytes → Bytes → Prop} {Complete : Bytes → Bytes → Prop}
  {D : ι' → Bytes → Bytes → Prop} {received : ω → Bytes}
open ProtocolHandler (Reaches)

/-- The modules that the two macros make, and their plans. -/
inductive Version.Generated : Version → Plan → Prop
  | buildProtocol (input : BuildProtocol.Input) : Generated (buildProtocol input) input.plan
  | buildProtocolPre1_21_2 (input : BuildProtocolPre1_21_2.Input) :
    Generated (buildProtocolPre1_21_2 input) input.plan

/-- Handlers of opposite sides that have taken the same transitions are at opposite places. -/
theorem peers (hv : v.Implements plan) {bound : Bound} {p : DefaultStreamProvider κ ι ρ ω}
    {q : DefaultStreamProvider κ' ι' ρ' ω'} {taken : List Transition} {a : ProtocolHandler v κ ι ρ ω}
    {b : ProtocolHandler v κ' ι' ρ' ω'} (ha : Reaches (.new v bound p) taken a)
    (hb : Reaches (.new v bound.opposite q) taken b) :
    v.place b.state = ⟨(v.place a.state).bound.opposite, (v.place a.state).phase⟩ := by
  obtain ⟨phase, htaken, hplace⟩ := ha.place hv
  obtain ⟨phase', htaken', hplace'⟩ := hb.place hv
  rw [ProtocolHandler.new_place hv] at htaken hplace htaken' hplace'
  cases htaken.symm.trans htaken'
  rw [hplace, hplace']

theorem Version.Generated.implements (h : v.Generated plan) : v.Implements plan := by
  cases h with
  | buildProtocol input => exact buildProtocol_implements input
  | buildProtocolPre1_21_2 input => exact buildProtocolPre1_21_2_implements input

def Designator.place : Designator v.table → Place
  | handshake _ => ⟨.serverbound, .handshake⟩
  | packet packets _ => v.packetsPlace packets

/-- **Both ends agree on every packet in every state.** Of two handlers that began on opposite sides
and have taken the same transitions, whatever was read, written or changed in between, each
dispatches what the other writes to the designator that it was written with, dispatches nothing to a
designator that is for another place, and reports the ids that are not in the table for its place. -/
theorem both_ends_agree (hv : v.Generated plan) (hdistinct : plan.Distinct) {bound : Bound}
    {p : DefaultStreamProvider κ ι ρ ω} {q : DefaultStreamProvider κ' ι' ρ' ω'} {taken : List Transition}
    {a : ProtocolHandler v κ ι ρ ω} {b : ProtocolHandler v κ' ι' ρ' ω'}
    (ha : Reaches (.new v bound p) taken a) (hb : Reaches (.new v bound.opposite q) taken b)
    (hdeflating : Deflating Sent Complete) (hideal : Ideal D)
    (hzlib : ∀ {output input} s, Complete output input → D (Inflate.resetAs s) output input)
    (hlawful : Lawful received) {R : BufReader (DefaultReader ρ') → Bytes → Prop}
    (hdelivers : Delivers R Never) (hfills : Fills R) :
    (∀ {packets}, v.reciprocal a.state = some packets → ∀ packet : (v.table packets).Packet,
      (v.protocolState b.state).designatorFromId packet.id = some (.packet packets packet) ∧
      ∀ {turns payload a'}, payload.size = payload.bytes.length →
        a.writePacket turns packet payload = (.ok (), a') → ∃ frame,
          received a'.provider.writer.sink = received a.provider.writer.sink ++
            a.provider.writer.encoded (a.provider.writer.buffer ++ frame) ∧
          ∀ {rest}, b.provider.compressionThreshold = a.provider.compressionThreshold →
            R b.provider.reader (frame ++ rest) →
            b.Handles R (.packet packets packet) (content packet.id payload) payload.bytes rest) ∧
    (∀ {id designator}, (v.protocolState b.state).designatorFromId id = some designator →
      designator.place = v.place b.state) ∧
    (∀ {n frame content payload rest}, BitVec.ofNat 32 n ∉ plan.ids (v.place b.state) →
      Leb128.decode 5 content = some (n, payload) →
      Framed Complete b.provider.compressionThreshold content frame →
      R b.provider.reader (frame ++ rest) →
      b.Refuses R (BitVec.ofNat 32 n) content) := by
  have himplements := hv.implements
  have hpeers := peers himplements ha hb
  refine ⟨?_, ?_, ?_⟩
  · intro packets haccepted packet
    have hknown : (v.protocolState b.state).designatorFromId packet.id =
        some (.packet packets packet) := by
      refine (himplements.packet_iff hdistinct).mpr ⟨?_, rfl⟩
      exact (himplements.writes haccepted).trans hpeers.symm
    refine ⟨hknown, ?_⟩
    intro turns payload a' hsize hok
    obtain ⟨p', hwritten, rfl⟩ := ok_of_borrowing hok
    obtain ⟨w, hwrite, rfl⟩ := ok_of_borrowing hwritten
    obtain ⟨frame, hframe, hsink⟩ := writePacketInternal_sent hdeflating hlawful hsize hwrite
    refine ⟨frame, hsink, ?_⟩
    intro rest hthreshold hr
    rw [← hthreshold] at hframe
    have hknown' : (v.protocolState b.state).designatorFromId (BitVec.ofNat 32 packet.id.toNat) =
        some (.packet packets packet) := by
      rwa [BitVec.ofNat_toNat, BitVec.setWidth_eq]
    exact ProtocolHandler.handles hideal hzlib hdelivers hfills hknown'
      (decode_id packet.id payload.bytes) hframe hr
  · intro id designator hfound
    cases designator with
    | handshake handshake => exact (himplements.handshake_iff.mp hfound).1.symm
    | packet packets packet => exact ((himplements.packet_iff hdistinct).mp hfound).1
  · intro n frame content payload rest hout hid hframe hr
    exact ProtocolHandler.refuses hideal hzlib hdelivers hfills (himplements.none_iff.mpr hout)
      hid hframe hr

/-- In the status state of an old version, in which a packet `Ping` of id 1 is bound for either
side. -/
theorem both_ends_agree_ping :
    let status : Tables := ⟨⟨[⟨0, "Response"⟩, ⟨1, "Ping"⟩], by decide, by decide⟩,
      ⟨[⟨0, "Request"⟩, ⟨1, "Ping"⟩], by decide, by decide⟩⟩
    let login : Tables :=
      ⟨⟨[⟨0, "Disconnect"⟩, ⟨1, "EncryptionRequest"⟩, ⟨2, "LoginSuccess"⟩], by decide, by decide⟩,
      ⟨[⟨0, "LoginStart"⟩, ⟨1, "EncryptionResponse"⟩], by decide, by decide⟩⟩
    let play : Tables := ⟨⟨[⟨0, "KeepAlive"⟩, ⟨1, "JoinGame"⟩], by decide, by decide⟩,
      ⟨[⟨0, "KeepAlive"⟩, ⟨1, "ChatMessage"⟩], by decide, by decide⟩⟩
    let v := buildProtocolPre1_21_2 ⟨status, login, play⟩
    let compressor : Stored.Deflater := ⟨false, false, [], Stored.adlerStart, [], Stored.start⟩
    let provider : Segments → DefaultStreamProvider Stored.Deflater Stored.Inflater Segments Collected :=
      fun transport => .new transport ⟨[]⟩ compressor ⟨Stored.start, []⟩ 64
    let client : ProtocolHandler v _ _ _ _ := ⟨provider ⟨[], by decide⟩, .clientboundStatusState⟩
    let server : ProtocolHandler v _ _ _ _ :=
      ⟨provider ⟨[[2, 1], [7]], by decide⟩, .serverboundStatusState⟩
    let ping : (v.table .serverboundStatusPacket).Packet := ⟨"Ping", by decide⟩
    (client.writePacket 3 ping ⟨1, [[7]], none⟩).2.provider.writer.sink.bytes = [2, 1, 7] ∧
    (v.protocolState server.state).designatorFromId ping.id =
      some (.packet .serverboundStatusPacket ping) ∧
    (server.readPacket fun _ => readU8).1 = .ok 7 := by
  intro status login play v compressor provider client server ping
  have hdistinct : (BuildProtocolPre1_21_2.Input.plan ⟨status, login, play⟩).Distinct := by
    intro s table htable
    obtain ⟨bound, phase⟩ := s
    cases phase <;> cases bound <;> cases htable <;> exact by decide
  have hclient : ProtocolHandler.Reaches (.new v .clientbound (provider ⟨[], by decide⟩))
      [.intoStatusState] client :=
    .take .start rfl
  have hserver : ProtocolHandler.Reaches (.new v .serverbound (provider ⟨[[2, 1], [7]], by decide⟩))
    [.intoStatusState] server := .take .start rfl
  have hagree := both_ends_agree (.buildProtocolPre1_21_2 ⟨status, login, play⟩) hdistinct
    hclient hserver
    Stored.Deflater.deflating Stored.Inflater.ideal (fun s h => Stored.Deflater.Complete.yields h s)
    Collected.lawful (DefaultReader.delivers Segments.delivers).buffered
    (DefaultReader.delivers Segments.delivers).fills
  obtain ⟨hknown, hwritten⟩ := hagree.1 rfl ping
  have hok : (client.writePacket 3 ping ⟨1, [[7]], none⟩).1 = .ok () := by decide +kernel
  have hsent : (client.writePacket 3 ping ⟨1, [[7]], none⟩).2.provider.writer.sink.bytes =
      [2, 1, 7] := by
    decide +kernel
  obtain ⟨frame, hsink, hhandles⟩ := hwritten rfl (replied hok)
  have hframe : frame = [2, 1, 7] := by
    have hplain : Collected.bytes _ = [] ++ InPlace.machine.output () ([] ++ frame) := hsink
    rw [hsent] at hplain
    exact (hplain.trans (Mealy.identity_output _ _)).symm
  subst hframe
  have hheld : Buffered (DefaultReader.Holding Segments.Holds) server.provider.reader
      ([2, 1, 7] ++ []) :=
    ⟨by decide, [2, 1, 7], rfl, rfl⟩
  obtain ⟨h', hread, -⟩ := (hhandles rfl hheld).read (fun _ h => by cases h) fun _ => readU8
  exact ⟨hsent, hknown, congrArg Prod.fst hread⟩

end Agreement

end Protocraft
