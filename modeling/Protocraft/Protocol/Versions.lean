import Mathlib.Data.List.Nodup
import Protocraft.Protocol.Handshake

/-! The versions of the protocol.

A version is a module of state types that one of two macros makes from tables of packets
(`buildProtocol`, `buildProtocolPre1_21_2`). A state reads the packets of its own enum and
writes those of its reciprocal. What the modules are for is a `Plan`: the tables, and the
phases that a connection goes through; each module keeps to the plan of its tables
(`Version.Implements`). -/
namespace Protocraft
open Protocraft.Stream

/-! ### Tables -/

/-- Where keys are distinct the first one found is the one there is. -/
theorem find?_key {β γ : Type} [DecidableEq γ] {key : β → γ} {l : List β} (h : (l.map key).Nodup)
    {k : γ} {b : β} :
    l.find? (fun x => key x = k) = some b ↔ b ∈ l ∧ key b = k := by
  constructor
  · intro hfound
    have hkey := List.find?_some hfound
    exact ⟨List.mem_of_find?_eq_some hfound, of_decide_eq_true hkey⟩
  · intro h
    obtain ⟨hb, rfl⟩ := h
    cases hfound : l.find? fun x => key x = key b with
    | none => exact absurd (decide_eq_true rfl) (List.find?_eq_none.mp hfound b hb)
    | some b' =>
      have hkey := List.find?_some hfound
      rw [List.inj_on_of_nodup_map h (List.mem_of_find?_eq_some hfound) hb (of_decide_eq_true hkey)]

/-- `$id => $packet_name`. -/
structure Row where
  id : I32
  name : String
  deriving DecidableEq, Repr

/-- The rows of one enum: there is at least one, and no two variants have one name. -/
structure PacketTable where
  rows : List Row
  nonempty : rows ≠ []
  names : (rows.map Row.name).Nodup

namespace PacketTable

/-- A variant of the enum that a table declares. -/
structure Packet (table : PacketTable) where
  name : String
  declared : name ∈ table.rows.map Row.name
  deriving DecidableEq

variable {table : PacketTable}

theorem Packet.isSome (packet : table.Packet) :
    (table.rows.find? fun row => row.name = packet.name).isSome := by
  obtain ⟨row, hrow, hname⟩ := List.mem_map.mp packet.declared
  exact List.find?_isSome.mpr ⟨row, hrow, decide_eq_true hname⟩

/-- The arm of the match on the variant. -/
def Packet.row (packet : table.Packet) : Row :=
  (table.rows.find? fun row => row.name = packet.name).get packet.isSome

def Packet.id (packet : table.Packet) : I32 := packet.row.id

/-- The first arm that matches. -/
def designatorFromId (table : PacketTable) (id : I32) : Option table.Packet :=
  match h : table.rows.find? fun row => row.id = id with
  | some row => some ⟨row.name, List.mem_map_of_mem (List.mem_of_find?_eq_some h)⟩
  | none => none

def ids (table : PacketTable) : List I32 := table.rows.map Row.id

theorem Packet.find_row (packet : table.Packet) :
    table.rows.find? (fun row => row.name = packet.name) = some packet.row :=
  (Option.some_get packet.isSome).symm

theorem Packet.row_mem (packet : table.Packet) : packet.row ∈ table.rows :=
  List.mem_of_find?_eq_some packet.find_row

theorem Packet.row_eq_iff {packet : table.Packet} {row : Row} (hrow : row ∈ table.rows) :
    row = packet.row ↔ row.name = packet.name := by
  have hfound := find?_key table.names (k := packet.name) (b := row)
  rw [packet.find_row, Option.some.injEq] at hfound
  exact eq_comm.trans (hfound.trans (and_iff_right hrow))

theorem designatorFromId_cases (table : PacketTable) (id : I32) :
    (∃ row declared, table.rows.find? (fun row => row.id = id) = some row ∧
      table.designatorFromId id = some ⟨row.name, declared⟩) ∨
    (table.rows.find? (fun row => row.id = id) = none ∧ table.designatorFromId id = none) := by
  unfold designatorFromId
  split
  next row hrow => exact .inl ⟨row, List.mem_map_of_mem (List.mem_of_find?_eq_some hrow), hrow, rfl⟩
  next hnone => exact .inr ⟨hnone, rfl⟩

theorem designatorFromId_eq_some {id : I32} {packet : table.Packet} :
    table.designatorFromId id = some packet ↔
    table.rows.find? (fun row => row.id = id) = some packet.row := by
  obtain ⟨row, declared, hfind, hid⟩ | ⟨hfind, hid⟩ := table.designatorFromId_cases id <;>
    rw [hfind, hid]
  · rw [Option.some.injEq, Option.some.injEq, Packet.row_eq_iff (List.mem_of_find?_eq_some hfind)]
    exact ⟨congrArg Packet.name, fun hname => Packet.mk.injEq .. ▸ hname⟩
  · simp only [reduceCtorEq]

theorem designatorFromId_eq_none {id : I32} : table.designatorFromId id = none ↔ id ∉ table.ids := by
  have hids : table.rows.find? (fun row => row.id = id) = none ↔ id ∉ table.ids := by
    rw [List.find?_eq_none, ids, List.mem_map]
    simp
  obtain ⟨row, declared, hfind, hid⟩ | ⟨hfind, hid⟩ := table.designatorFromId_cases id <;>
    rw [← hids, hfind, hid]
  · simp only [reduceCtorEq]
  · exact ⟨fun _ => rfl, fun _ => rfl⟩

/-- No id stands for two packets. -/
def Distinct (table : PacketTable) : Prop := table.ids.Nodup

instance (table : PacketTable) : Decidable table.Distinct := inferInstanceAs (Decidable table.ids.Nodup)

/-- The two matches are inverse to each other. -/
theorem Distinct.designatorFromId (h : table.Distinct) {id : I32} {packet : table.Packet} :
    table.designatorFromId id = some packet ↔ packet.id = id := by
  rw [designatorFromId_eq_some, find?_key h]
  exact and_iff_right packet.row_mem

end PacketTable

/-! ### Modules -/

inductive Phase where
  | handshake
  | status
  | login
  | config
  | play
  deriving DecidableEq, Repr

inductive Bound where
  | clientbound
  | serverbound
  deriving DecidableEq, Repr

def Bound.opposite : Bound → Bound
  | clientbound => serverbound
  | serverbound => clientbound

/-- What the name of a state type or of an enum says. -/
structure Place where
  bound : Bound
  phase : Phase
  deriving DecidableEq, Repr

inductive Transition where
  | intoStatusState
  | intoLoginState
  | intoNextState
  deriving DecidableEq, Repr

/-- A designator of one of the states. -/
inductive Designator {ε : Type} (table : ε → PacketTable) where
  | handshake (handshake : Handshake)
  | packet (packets : ε) (packet : (table packets).Packet)

/-- The state types of a module, the enums of their packets, and what is implemented for them. -/
structure Version where
  State : Type
  place : State → Place
  Packets : Type
  packetsPlace : Packets → Place
  table : Packets → PacketTable
  protocolState : State → ProtocolState (Designator table)
  /-- The packets that `write_packet` takes. The handshake states have no such function. -/
  reciprocal : State → Option Packets
  statusState : State → Option State
  loginState : State → Option State
  nextState : State → Option State
  newServerside : State
  newClientside : State

section Macros
variable {ε : Type} {table : ε → PacketTable}

/-- `_build_protocol_state!`. -/
def buildProtocolState (stateName : String) (packets : ε) : ProtocolState (Designator table) :=
  ⟨stateName, fun id => ((table packets).designatorFromId id).map (.packet packets)⟩

def clientboundHandshake : ProtocolState (Designator table) := ⟨"clientbound_handshake", fun _ => none⟩

def serverboundHandshake : ProtocolState (Designator table) :=
  ⟨"serverbound_handshake", fun id => if id = 0 then some (.handshake .standard) else none⟩

/-- A state that reads the packets of an enum reads no others. -/
theorem buildProtocolState_packet {stateName : String} {packets packets' : ε} {id : I32}
    {packet : (table packets').Packet} :
    (buildProtocolState stateName packets : ProtocolState (Designator table)).designatorFromId id =
        some (.packet packets' packet) ↔
      packets' = packets ∧ (table packets').designatorFromId id = some packet := by
  rw [buildProtocolState, Option.map_eq_some_iff]
  constructor
  · intro h
    obtain ⟨packet', hfound, hpacket⟩ := h
    cases hpacket
    exact ⟨rfl, hfound⟩
  · intro h
    obtain ⟨rfl, hfound⟩ := h
    exact ⟨packet, hfound, rfl⟩

theorem buildProtocolState_handshake {stateName : String} {packets : ε} {id : I32}
    {handshake : Handshake} :
    (buildProtocolState stateName packets : ProtocolState (Designator table)).designatorFromId id ≠
      some (.handshake handshake) := by
  intro h
  obtain ⟨packet, -, hpacket⟩ := Option.map_eq_some_iff.mp h
  cases hpacket

theorem buildProtocolState_none {stateName : String} {packets : ε} {id : I32} :
    (buildProtocolState stateName packets : ProtocolState (Designator table)).designatorFromId id =
      none ↔
      id ∉ (table packets).ids := by
  rw [buildProtocolState, Option.map_eq_none_iff]
  exact PacketTable.designatorFromId_eq_none

theorem serverboundHandshake_some {id : I32} {designator : Designator table} :
    serverboundHandshake.designatorFromId id = some designator ↔
    id = 0 ∧ designator = .handshake .standard := by
  by_cases hid : id = 0
  · simp only [serverboundHandshake, hid, if_true, Option.some.injEq, true_and]
    exact eq_comm
  · simp only [serverboundHandshake, hid, if_false, reduceCtorEq, false_and]

end Macros

/-- The two tables of a phase. -/
structure Tables where
  clientbound : PacketTable
  serverbound : PacketTable

def Tables.table (tables : Tables) : Bound → PacketTable
  | .clientbound => tables.clientbound
  | .serverbound => tables.serverbound

namespace BuildProtocol

inductive State where
  | clientboundHandshakeState
  | serverboundHandshakeState
  | clientboundStatusState
  | serverboundStatusState
  | clientboundLoginState
  | serverboundLoginState
  | clientboundConfigState
  | serverboundConfigState
  | clientboundPlayState
  | serverboundPlayState
  deriving DecidableEq, Repr

inductive Packets where
  | clientboundStatusPacket
  | serverboundStatusPacket
  | clientboundLoginPacket
  | serverboundLoginPacket
  | clientboundConfigPacket
  | serverboundConfigPacket
  | clientboundPlayPacket
  | serverboundPlayPacket
  deriving DecidableEq, Repr

def State.place : State → Place
  | clientboundHandshakeState => ⟨.clientbound, .handshake⟩
  | serverboundHandshakeState => ⟨.serverbound, .handshake⟩
  | clientboundStatusState => ⟨.clientbound, .status⟩
  | serverboundStatusState => ⟨.serverbound, .status⟩
  | clientboundLoginState => ⟨.clientbound, .login⟩
  | serverboundLoginState => ⟨.serverbound, .login⟩
  | clientboundConfigState => ⟨.clientbound, .config⟩
  | serverboundConfigState => ⟨.serverbound, .config⟩
  | clientboundPlayState => ⟨.clientbound, .play⟩
  | serverboundPlayState => ⟨.serverbound, .play⟩

def Packets.place : Packets → Place
  | clientboundStatusPacket => ⟨.clientbound, .status⟩
  | serverboundStatusPacket => ⟨.serverbound, .status⟩
  | clientboundLoginPacket => ⟨.clientbound, .login⟩
  | serverboundLoginPacket => ⟨.serverbound, .login⟩
  | clientboundConfigPacket => ⟨.clientbound, .config⟩
  | serverboundConfigPacket => ⟨.serverbound, .config⟩
  | clientboundPlayPacket => ⟨.clientbound, .play⟩
  | serverboundPlayPacket => ⟨.serverbound, .play⟩

/-- What the macro is given. -/
structure Input where
  status : Tables
  login : Tables
  config : Tables
  play : Tables

def table (input : Input) : Packets → PacketTable
  | .clientboundStatusPacket => input.status.clientbound
  | .serverboundStatusPacket => input.status.serverbound
  | .clientboundLoginPacket => input.login.clientbound
  | .serverboundLoginPacket => input.login.serverbound
  | .clientboundConfigPacket => input.config.clientbound
  | .serverboundConfigPacket => input.config.serverbound
  | .clientboundPlayPacket => input.play.clientbound
  | .serverboundPlayPacket => input.play.serverbound

def protocolState (input : Input) : State → ProtocolState (Designator (table input))
  | .clientboundHandshakeState => clientboundHandshake
  | .serverboundHandshakeState => serverboundHandshake
  | .clientboundStatusState => buildProtocolState "clientbound_status" .clientboundStatusPacket
  | .serverboundStatusState => buildProtocolState "serverbound_status" .serverboundStatusPacket
  | .clientboundLoginState => buildProtocolState "clientbound_login" .clientboundLoginPacket
  | .serverboundLoginState => buildProtocolState "serverbound_login" .serverboundLoginPacket
  | .clientboundConfigState => buildProtocolState "clientbound_config" .clientboundConfigPacket
  | .serverboundConfigState => buildProtocolState "serverbound_config" .serverboundConfigPacket
  | .clientboundPlayState => buildProtocolState "clientbound_play" .clientboundPlayPacket
  | .serverboundPlayState => buildProtocolState "serverbound_play" .serverboundPlayPacket

/-- `_build_protocol_writer!`. -/
def State.reciprocal : State → Option Packets
  | clientboundStatusState => some .serverboundStatusPacket
  | serverboundStatusState => some .clientboundStatusPacket
  | clientboundLoginState => some .serverboundLoginPacket
  | serverboundLoginState => some .clientboundLoginPacket
  | clientboundConfigState => some .serverboundConfigPacket
  | serverboundConfigState => some .clientboundConfigPacket
  | clientboundPlayState => some .serverboundPlayPacket
  | serverboundPlayState => some .clientboundPlayPacket
  | _ => none

/-- `HandshakeProtocolState`. -/
def State.statusState : State → Option State
  | clientboundHandshakeState => some clientboundStatusState
  | serverboundHandshakeState => some serverboundStatusState
  | _ => none

def State.loginState : State → Option State
  | clientboundHandshakeState => some clientboundLoginState
  | serverboundHandshakeState => some serverboundLoginState
  | _ => none

/-- `HasNextProtocolState`. -/
def State.nextState : State → Option State
  | clientboundLoginState => some clientboundConfigState
  | serverboundLoginState => some serverboundConfigState
  | clientboundConfigState => some clientboundPlayState
  | serverboundConfigState => some serverboundPlayState
  | _ => none

end BuildProtocol

/-- `build_protocol!`. -/
def buildProtocol (input : BuildProtocol.Input) : Version where
  State := BuildProtocol.State
  place := BuildProtocol.State.place
  Packets := BuildProtocol.Packets
  packetsPlace := BuildProtocol.Packets.place
  table := BuildProtocol.table input
  protocolState := BuildProtocol.protocolState input
  reciprocal := BuildProtocol.State.reciprocal
  statusState := BuildProtocol.State.statusState
  loginState := BuildProtocol.State.loginState
  nextState := BuildProtocol.State.nextState
  newServerside := .serverboundHandshakeState
  newClientside := .clientboundHandshakeState

namespace BuildProtocolPre1_21_2

inductive State where
  | clientboundHandshakeState
  | serverboundHandshakeState
  | clientboundStatusState
  | serverboundStatusState
  | clientboundLoginState
  | serverboundLoginState
  | clientboundPlayState
  | serverboundPlayState
  deriving DecidableEq, Repr

inductive Packets where
  | clientboundStatusPacket
  | serverboundStatusPacket
  | clientboundLoginPacket
  | serverboundLoginPacket
  | clientboundPlayPacket
  | serverboundPlayPacket
  deriving DecidableEq, Repr

def State.place : State → Place
  | clientboundHandshakeState => ⟨.clientbound, .handshake⟩
  | serverboundHandshakeState => ⟨.serverbound, .handshake⟩
  | clientboundStatusState => ⟨.clientbound, .status⟩
  | serverboundStatusState => ⟨.serverbound, .status⟩
  | clientboundLoginState => ⟨.clientbound, .login⟩
  | serverboundLoginState => ⟨.serverbound, .login⟩
  | clientboundPlayState => ⟨.clientbound, .play⟩
  | serverboundPlayState => ⟨.serverbound, .play⟩

def Packets.place : Packets → Place
  | clientboundStatusPacket => ⟨.clientbound, .status⟩
  | serverboundStatusPacket => ⟨.serverbound, .status⟩
  | clientboundLoginPacket => ⟨.clientbound, .login⟩
  | serverboundLoginPacket => ⟨.serverbound, .login⟩
  | clientboundPlayPacket => ⟨.clientbound, .play⟩
  | serverboundPlayPacket => ⟨.serverbound, .play⟩

/-- What the macro is given. -/
structure Input where
  status : Tables
  login : Tables
  play : Tables

def table (input : Input) : Packets → PacketTable
  | .clientboundStatusPacket => input.status.clientbound
  | .serverboundStatusPacket => input.status.serverbound
  | .clientboundLoginPacket => input.login.clientbound
  | .serverboundLoginPacket => input.login.serverbound
  | .clientboundPlayPacket => input.play.clientbound
  | .serverboundPlayPacket => input.play.serverbound

def protocolState (input : Input) : State → ProtocolState (Designator (table input))
  | .clientboundHandshakeState => clientboundHandshake
  | .serverboundHandshakeState => serverboundHandshake
  | .clientboundStatusState => buildProtocolState "clientbound_status" .clientboundStatusPacket
  | .serverboundStatusState => buildProtocolState "serverbound_status" .serverboundStatusPacket
  | .clientboundLoginState => buildProtocolState "clientbound_login" .clientboundLoginPacket
  | .serverboundLoginState => buildProtocolState "serverbound_login" .serverboundLoginPacket
  | .clientboundPlayState => buildProtocolState "clientbound_play" .clientboundPlayPacket
  | .serverboundPlayState => buildProtocolState "serverbound_play" .serverboundPlayPacket

/-- `_build_protocol_writer!`. -/
def State.reciprocal : State → Option Packets
  | clientboundStatusState => some .serverboundStatusPacket
  | serverboundStatusState => some .clientboundStatusPacket
  | clientboundLoginState => some .serverboundLoginPacket
  | serverboundLoginState => some .clientboundLoginPacket
  | clientboundPlayState => some .serverboundPlayPacket
  | serverboundPlayState => some .clientboundPlayPacket
  | _ => none

/-- `HandshakeProtocolState`. -/
def State.statusState : State → Option State
  | clientboundHandshakeState => some clientboundStatusState
  | serverboundHandshakeState => some serverboundStatusState
  | _ => none

def State.loginState : State → Option State
  | clientboundHandshakeState => some clientboundLoginState
  | serverboundHandshakeState => some serverboundLoginState
  | _ => none

/-- `HasNextProtocolState`. -/
def State.nextState : State → Option State
  | clientboundLoginState => some clientboundPlayState
  | serverboundLoginState => some serverboundPlayState
  | _ => none

end BuildProtocolPre1_21_2

/-- `build_protocol_pre_1_21_2!`. -/
def buildProtocolPre1_21_2 (input : BuildProtocolPre1_21_2.Input) : Version where
  State := BuildProtocolPre1_21_2.State
  place := BuildProtocolPre1_21_2.State.place
  Packets := BuildProtocolPre1_21_2.Packets
  packetsPlace := BuildProtocolPre1_21_2.Packets.place
  table := BuildProtocolPre1_21_2.table input
  protocolState := BuildProtocolPre1_21_2.protocolState input
  reciprocal := BuildProtocolPre1_21_2.State.reciprocal
  statusState := BuildProtocolPre1_21_2.State.statusState
  loginState := BuildProtocolPre1_21_2.State.loginState
  nextState := BuildProtocolPre1_21_2.State.nextState
  newServerside := .serverboundHandshakeState
  newClientside := .clientboundHandshakeState

/-! ### Plans -/

/-- The tables, and the phases that a connection goes through. -/
structure Plan where
  table : Place → Option PacketTable
  take : Transition → Phase → Option Phase

namespace Plan

/-- In the handshake one id is known, to the server. -/
def ids (plan : Plan) (place : Place) : List I32 :=
  match plan.table place with
  | some table => table.ids
  | none => if place = ⟨.serverbound, .handshake⟩ then [0] else []

def Distinct (plan : Plan) : Prop := ∀ {place table}, plan.table place = some table → table.Distinct

/-- From the handshake to the status, or to the login and on to the play phase. -/
def phases (afterLogin : Phase) : Transition → Phase → Option Phase
  | .intoStatusState, .handshake => some .status
  | .intoLoginState, .handshake => some .login
  | .intoNextState, .login => some afterLogin
  | .intoNextState, .config => some .play
  | _, _ => none

end Plan

def BuildProtocol.Input.plan (input : BuildProtocol.Input) : Plan where
  table
    | ⟨_, .handshake⟩ => none
    | ⟨bound, .status⟩ => some (input.status.table bound)
    | ⟨bound, .login⟩ => some (input.login.table bound)
    | ⟨bound, .config⟩ => some (input.config.table bound)
    | ⟨bound, .play⟩ => some (input.play.table bound)
  take := Plan.phases .config

def BuildProtocolPre1_21_2.Input.plan (input : BuildProtocolPre1_21_2.Input) : Plan where
  table
    | ⟨_, .handshake⟩ => none
    | ⟨bound, .status⟩ => some (input.status.table bound)
    | ⟨bound, .login⟩ => some (input.login.table bound)
    | ⟨_, .config⟩ => none
    | ⟨bound, .play⟩ => some (input.play.table bound)
  take := Plan.phases .play

namespace Version

def take (v : Version) : Transition → v.State → Option v.State
  | .intoStatusState => v.statusState
  | .intoLoginState => v.loginState
  | .intoNextState => v.nextState

/-- **The module keeps to the plan**: its states read the packets that are for their place, write
those that are for the opposite one, and go through the phases. -/
structure Implements (v : Version) (plan : Plan) : Prop where
  newServerside : v.place v.newServerside = ⟨.serverbound, .handshake⟩
  newClientside : v.place v.newClientside = ⟨.clientbound, .handshake⟩
  take : ∀ t s, (v.take t s).map v.place =
    (plan.take t (v.place s).phase).map fun phase => ⟨(v.place s).bound, phase⟩
  table : ∀ packets, plan.table (v.packetsPlace packets) = some (v.table packets)
  handshake : ∀ bound, plan.table ⟨bound, .handshake⟩ = none
  injective : ∀ {packets packets'}, v.packetsPlace packets = v.packetsPlace packets' → packets = packets'
  reads : ∀ s, (v.protocolState s = clientboundHandshake ∧ v.place s = ⟨.clientbound, .handshake⟩) ∨
    (v.protocolState s = serverboundHandshake ∧ v.place s = ⟨.serverbound, .handshake⟩) ∨
    ∃ stateName packets, v.protocolState s = buildProtocolState stateName packets ∧
      v.packetsPlace packets = v.place s
  writes : ∀ {s packets}, v.reciprocal s = some packets →
    v.packetsPlace packets = ⟨(v.place s).bound.opposite, (v.place s).phase⟩

namespace Implements
variable {v : Version} {plan : Plan} {s : v.State} {id : I32}

theorem packetsPlace_ne_handshake (h : v.Implements plan) (packets : v.Packets) (bound : Bound) :
    v.packetsPlace packets ≠ ⟨bound, .handshake⟩ := by
  intro hplace
  have htable := h.table packets
  rw [hplace, h.handshake] at htable
  cases htable

/-- A state dispatches a packet just when it is for its place, and has the id. -/
theorem packet_iff (h : v.Implements plan) (hdistinct : plan.Distinct) {packets : v.Packets}
    {packet : (v.table packets).Packet} :
    (v.protocolState s).designatorFromId id = some (.packet packets packet) ↔
      v.packetsPlace packets = v.place s ∧ packet.id = id := by
  rw [← (hdistinct (h.table packets)).designatorFromId]
  obtain ⟨hstate, hplace⟩ | ⟨hstate, hplace⟩ | ⟨stateName, packets', hstate, hplace⟩ := h.reads s
  · have hother := h.packetsPlace_ne_handshake packets .clientbound
    simp only [hstate, hplace, hother, clientboundHandshake, reduceCtorEq, false_and]
  · have hother := h.packetsPlace_ne_handshake packets .serverbound
    simp only [hstate, hplace, hother, serverboundHandshake_some, reduceCtorEq, false_and, and_false]
  · rw [hstate, ← hplace, buildProtocolState_packet]
    exact and_congr_left' ⟨congrArg v.packetsPlace, h.injective⟩

/-- The handshake is for the server in its first state only. -/
theorem handshake_iff (h : v.Implements plan) {handshake : Handshake} :
    (v.protocolState s).designatorFromId id = some (.handshake handshake) ↔
      v.place s = ⟨.serverbound, .handshake⟩ ∧ id = 0 ∧ handshake = .standard := by
  obtain ⟨hstate, hplace⟩ | ⟨hstate, hplace⟩ | ⟨stateName, packets, hstate, hplace⟩ := h.reads s
  · simp [hstate, hplace, clientboundHandshake]
  · rw [hstate, hplace, serverboundHandshake_some]
    simp
  · have hother := h.packetsPlace_ne_handshake packets .serverbound
    rw [hstate, ← hplace]
    simp only [hother, false_and, iff_false]
    exact buildProtocolState_handshake

theorem none_iff (h : v.Implements plan) :
    (v.protocolState s).designatorFromId id = none ↔ id ∉ plan.ids (v.place s) := by
  obtain ⟨hstate, hplace⟩ | ⟨hstate, hplace⟩ | ⟨stateName, packets, hstate, hplace⟩ := h.reads s
  · simp [hstate, hplace, Plan.ids, h.handshake, clientboundHandshake]
  · simp [hstate, hplace, Plan.ids, h.handshake, serverboundHandshake]
  · rw [hstate, ← hplace, Plan.ids, h.table packets]
    exact buildProtocolState_none

end Implements
end Version

namespace BuildProtocol

theorem Packets.place_injective {packets packets' : Packets} (h : packets.place = packets'.place) :
    packets = packets' := by
  cases packets <;> cases packets' <;> first | rfl | cases h

theorem State.writes {s : State} {packets : Packets} (h : s.reciprocal = some packets) :
    packets.place = ⟨s.place.bound.opposite, s.place.phase⟩ := by
  cases s <;> cases h <;> rfl

end BuildProtocol

theorem buildProtocol_implements (input : BuildProtocol.Input) :
    (buildProtocol input).Implements input.plan where
  newServerside := rfl
  newClientside := rfl
  take := by
    intro t s
    cases t <;> cases s <;> rfl
  table := by
    intro packets
    cases packets <;> rfl
  handshake := fun _ => rfl
  injective := BuildProtocol.Packets.place_injective
  reads := by
    intro s
    cases s
    case clientboundHandshakeState => exact .inl ⟨rfl, rfl⟩
    case serverboundHandshakeState => exact .inr (.inl ⟨rfl, rfl⟩)
    all_goals exact .inr (.inr ⟨_, _, rfl, rfl⟩)
  writes := BuildProtocol.State.writes

namespace BuildProtocolPre1_21_2

theorem Packets.place_injective {packets packets' : Packets} (h : packets.place = packets'.place) :
    packets = packets' := by
  cases packets <;> cases packets' <;> first | rfl | cases h

theorem State.writes {s : State} {packets : Packets} (h : s.reciprocal = some packets) :
    packets.place = ⟨s.place.bound.opposite, s.place.phase⟩ := by
  cases s <;> cases h <;> rfl

end BuildProtocolPre1_21_2

theorem buildProtocolPre1_21_2_implements (input : BuildProtocolPre1_21_2.Input) :
    (buildProtocolPre1_21_2 input).Implements input.plan where
  newServerside := rfl
  newClientside := rfl
  take := by
    intro t s
    cases t <;> cases s <;> rfl
  table := by
    intro packets
    cases packets <;> rfl
  handshake := fun _ => rfl
  injective := BuildProtocolPre1_21_2.Packets.place_injective
  reads := by
    intro s
    cases s
    case clientboundHandshakeState => exact .inl ⟨rfl, rfl⟩
    case serverboundHandshakeState => exact .inr (.inl ⟨rfl, rfl⟩)
    all_goals exact .inr (.inr ⟨_, _, rfl, rfl⟩)
  writes := BuildProtocolPre1_21_2.State.writes

end Protocraft
