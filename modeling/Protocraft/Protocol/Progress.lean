import Protocraft.Protocol.Connection

/-! Nothing gets stuck.

In whatever way two ends have come along their script, they can go through the rest of it, if the
script sends what the states accept and nothing of it is compressed (`connection_completes`). -/
namespace Protocraft
open Protocraft.Stream

/-- The phase behind these transitions. -/
def Plan.after (plan : Plan) (taken : List Transition) : Option Phase :=
  taken.foldlM (fun phase t => plan.take t phase) .handshake

/-- What a state accepts for sending is all that its place has. -/
theorem Version.Generated.accepts {v : Version} {plan : Plan} (h : v.Generated plan) {s : v.State}
    {packets : v.Packets}
    (hplace : v.packetsPlace packets = ⟨(v.place s).bound.opposite, (v.place s).phase⟩) :
    v.reciprocal s = some packets := by
  cases h with
  | buildProtocol input => cases s <;> cases packets <;> first | rfl | cases hplace
  | buildProtocolPre1_21_2 input => cases s <;> cases packets <;> first | rfl | cases hplace

section Playable
variable {v : Version}

/-- The packet is one of those that the sender's state accepts here, needs no compression and is not
too long. -/
structure Message.Fits (plan : Plan) (past : Script v) (side : Side) (m : Message v) : Prop where
  place : ∃ phase, plan.after (Script.transitions past) = some phase ∧
    v.packetsPlace m.packets = ⟨Bound.at side.other, phase⟩
  body : ∃ body, plainBody (Script.threshold past) ⟨m.packet.id⟩ m.payload = some body ∧
    body.size ≤ maxPacketSize
  written : m.payload.failure = none
  sized : m.payload.size = m.payload.bytes.length

/-- Each packet fits where it is sent, and each transition is there where it is taken. -/
def Playable (plan : Plan) : Script v → Script v → Prop
  | _, [] => True
  | past, .message side m :: rest =>
    m.Fits plan past side ∧ Playable plan (past ++ [.message side m]) rest
  | past, .act a :: rest =>
    (plan.after (Script.transitions (past ++ [.act a]))).isSome ∧ Playable plan (past ++ [.act a]) rest

theorem Playable.drop {plan : Plan} {past xs ys : Script v} (h : Playable plan past (xs ++ ys)) :
    Playable plan (past ++ xs) ys := by
  induction xs generalizing past with
  | nil => rwa [List.append_nil]
  | cons e xs ih =>
    rw [List.append_cons]
    cases e with
    | message side m => exact ih h.2
    | act a => exact ih h.2

end Playable

section Progress
variable {v : Version} {κ ι : Type} [Deflate κ] [Inflate ι] {plan : Plan}
  {Sent : κ → Bytes → Bytes → Prop} {Complete : Bytes → Bytes → Prop} {D : ι → Bytes → Bytes → Prop}
  {cipher : Cfb8} {script : Script v}
  {providers : Side → DefaultStreamProvider κ ι Segments Collected} {c : Connection v κ ι}
  {queue : Queue v} {side : Side} {rest : Script v} {aes : Block → Block → Block} {key : Block}

/-- What both ends still have to do. -/
def Connection.remaining (c : Connection v κ ι) : Nat :=
  (c .left).party.due.length + (c .right).party.due.length

omit [Deflate κ] [Inflate ι] in
theorem Connection.remaining_advance {e : Event (Message v) Act} (hdue : (c side).party.due = e :: rest)
    (handler : ProtocolHandler v κ ι Segments Collected) :
    Connection.remaining (Function.update c side ((c side).advance e rest handler)) < c.remaining := by
  cases side <;> simp [Connection.remaining, End.advance, hdue]

namespace Sound

theorem placed (h : Sound Complete cipher script providers c queue) (hv : v.Generated plan)
    (side : Side) :
    ∃ phase, plan.after (Script.transitions (c side).party.past) = some phase ∧
      v.place (c side).handler.state = ⟨Bound.at side, phase⟩ := by
  obtain ⟨phase, htaken, hplace⟩ := (h.handlers side).place hv.implements
  rw [ProtocolHandler.new_place hv.implements] at htaken hplace
  exact ⟨phase, htaken, hplace⟩

/-- All that one end has sent can arrive. -/
theorem arrives (h : Sound Complete (.new aes key) script providers c queue) (side : Side) :
    ∃ c', c.Reaches aes key c' ∧ Sound Complete (.new aes key) script providers c' queue ∧
      (∀ s, (c' s).party = (c s).party) ∧ (c' side).unsent = [] := by
  by_cases hsent : (c side).unsent = []
  · exact ⟨c, .refl, h, fun _ => rfl, hsent⟩
  · have hs : (c side).unsent.take (c side).unsent.length ≠ [] := by rwa [List.take_length]
    refine ⟨_, .single (.deliver side _ hs), h.deliver side _ hs, ?_, ?_⟩
    · intro s
      cases side <;> cases s <;> rfl
    · have hself : c.deliver side (c side).unsent.length hs side =
          (c side).handOver (c side).unsent.length := by
        cases side <;> rfl
      rw [hself]
      simp only [End.unsent, End.handOver]
      cases (c side).handler.provider.writer.writer <;>
        simp [DefaultWriterState.unsent, DefaultWriterState.handOver]

theorem plays (h : Sound Complete cipher script providers c queue) (hplayable : Playable plan [] script)
    {e : Event (Message v) Act} (hdue : (c side).party.due = e :: rest) :
    Playable plan (c side).party.past (e :: rest) := by
  have hscript := h.following.scripted side
  rw [hdue] at hscript
  rw [← hscript] at hplayable
  exact hplayable.drop

/-- The packet that is due is accepted, and is written. -/
theorem writes (h : Sound Complete (.new aes key) script providers c queue) (hv : v.Generated plan)
    (hplayable : Playable plan [] script) (hturning : Turning Act.Encrypts none script)
    (hdeflating : Deflating Sent Complete) {m : Message v}
    (hdue : (c side).party.due = .message side m :: rest) :
    ∃ c' queue', c.Reaches aes key c' ∧ Sound Complete (.new aes key) script providers c' queue' ∧
      c'.remaining < c.remaining := by
  have hfits := (h.plays hplayable hdue).1
  have haccepted : v.reciprocal (c side).handler.state = some m.packets := by
    obtain ⟨phase, htaken, hplace⟩ := h.placed hv side
    obtain ⟨phase', htaken', hpackets⟩ := hfits.place
    cases htaken.symm.trans htaken'
    refine hv.accepts ?_
    rw [hplace, hpackets, Bound.at_other side.other, Side.other_other]
  obtain ⟨body, hbody, hshort⟩ := hfits.body
  rw [← h.threshold side] at hbody
  obtain ⟨w', hwrite⟩ := writePacketInternal_fits Collected.reliable 0 hfits.written hbody hshort
    (h.links side).idle.2
  have hok : (c side).handler.writePacket 0 m.packet m.payload =
      (.ok (), {(c side).handler with provider := {(c side).handler.provider with writer := w'}}) := by
    simp only [ProtocolHandler.writePacket, DefaultStreamProvider.writePacketInternal,
      borrowing_apply, hwrite]
  exact ⟨_, _, .single (.write hdue haccepted hfits.sized 0 hok),
    h.write hturning hdeflating hdue haccepted hfits.sized hok, Connection.remaining_advance hdue _⟩

/-- The packet that is due has been sent, so it can arrive and be read. -/
theorem reads (h : Sound Complete (.new aes key) script providers c queue) (hv : v.Generated plan)
    (hdistinct : plan.Distinct) (hideal : Ideal D)
    (hzlib : ∀ {output input} s, Complete output input → D (Inflate.resetAs s) output input)
    (hplayable : Playable plan [] script) {m : Message v}
    (hdue : (c side).party.due = .message side.other m :: rest) (hqueue : queue side.other ≠ []) :
    ∃ c' queue', c.Reaches aes key c' ∧ Sound Complete (.new aes key) script providers c' queue' ∧
      c'.remaining < c.remaining := by
  obtain ⟨c₁, hreach, h₁, hparty, hsent⟩ := h.arrives side.other
  have hfits := (h.plays hplayable hdue).1
  obtain ⟨x, queue', hfirst⟩ := List.exists_cons_of_ne_nil hqueue
  rw [← hparty] at hdue
  obtain ⟨rfl, -⟩ := h₁.following.receive hdue hfirst
  have hlink := h₁.links side.other
  rw [Side.other_other, hfirst] at hlink
  have hready : (c₁ side).Ready := hlink.ready (h₁.modes side).early hsent
  have hpieced : (c₁ side).Pieced m := by
    intro least hleast hlong
    obtain ⟨body, hbody, -⟩ := hfits.body
    rw [h₁.threshold side, hparty] at hleast
    rw [hleast, plainBody] at hbody
    have hid : (VarInt.mk m.packet.id).size = (Leb128.encode m.packet.id.toNat).length :=
      VarInt.size_eq _
    have hsize := hfits.sized
    rw [content, List.length_append] at hlong
    rw [if_neg (by omega)] at hbody
    cases hbody
  obtain ⟨-, queue'', h₂⟩ := h₁.read hv hdistinct hideal hzlib hdue hready hpieced fun _ => pure ()
  have hremaining : c₁.remaining = c.remaining := by simp [Connection.remaining, hparty]
  refine ⟨_, queue'', hreach.tail (.read hdue hready hpieced fun _ => pure ()), h₂, ?_⟩
  rw [← hremaining]
  exact Connection.remaining_advance hdue _

theorem acts (h : Sound Complete (.new aes key) script providers c queue) (hv : v.Generated plan)
    (hplayable : Playable plan [] script) (hturning : Turning Act.Encrypts none script) {a : Act}
    (hdue : (c side).party.due = .act a :: rest) :
    ∃ c' queue', c.Reaches aes key c' ∧ Sound Complete (.new aes key) script providers c' queue' ∧
      c'.remaining < c.remaining := by
  have hthere := (h.plays hplayable hdue).1
  have hperformed : ∃ handler, (c side).handler.perform aes key a = some handler := by
    cases a with
    | setCompressionThreshold threshold => exact ⟨_, rfl⟩
    | take t =>
      obtain ⟨phase, htaken, hplace⟩ := h.placed hv side
      have htake := hv.implements.take t (c side).handler.state
      rw [Script.transitions_act, Script.transition, Option.toList_some] at hthere
      rw [Plan.after, List.foldlM_append, ← Plan.after, htaken] at hthere
      rw [hplace] at htake
      have hsome : (v.take t (c side).handler.state).isSome := by
        rw [← Option.isSome_map, htake, Option.isSome_map]
        simpa using hthere
      obtain ⟨state, hstate⟩ := Option.isSome_iff_exists.mp hsome
      exact ⟨_, by rw [ProtocolHandler.perform, ProtocolHandler.take, hstate]; rfl⟩
    | withEncryption =>
      obtain ⟨t, s, -, -, hswitch⟩ := h.encrypts hturning hdue aes key
      exact ⟨_, by rw [ProtocolHandler.perform, hswitch]; rfl⟩
  obtain ⟨handler, hact⟩ := hperformed
  exact ⟨_, queue, .single (.act hdue hact), h.act hturning hdue hact,
    Connection.remaining_advance hdue _⟩

end Sound

section Run
variable (hv : v.Generated plan) (hdistinct : plan.Distinct) (hdeflating : Deflating Sent Complete)
  (hideal : Ideal D)
  (hzlib : ∀ {output input} s, Complete output input → D (Inflate.resetAs s) output input)
  (hplayable : Playable plan [] script) (hturning : Turning Act.Encrypts none script)
include hv hdistinct hdeflating hideal hzlib hplayable hturning

theorem Sound.goes_on (h : Sound Complete (.new aes key) script providers c queue) :
    (∀ side, (c side).party.due = []) ∨ ∃ c' queue', c.Reaches aes key c' ∧
      Sound Complete (.new aes key) script providers c' queue' ∧ c'.remaining < c.remaining := by
  obtain hdone | ⟨side, e, rest, hdue, hwaits⟩ := h.following.goes_on
  · exact .inl hdone
  · refine .inr ?_
    cases e with
    | act a => exact h.acts hv hplayable hturning hdue
    | message sender m =>
      obtain rfl | rfl := sender.eq_or side
      · exact h.writes hv hplayable hturning hdeflating hdue
      · exact h.reads hv hdistinct hideal hzlib hplayable hdue (hwaits m rfl)

theorem Sound.completes (h : Sound Complete (.new aes key) script providers c queue) :
    ∃ c', c.Reaches aes key c' ∧ ∀ side, (c' side).party.due = [] := by
  induction hleft : c.remaining using Nat.strong_induction_on generalizing c queue with
  | _ n ih =>
    subst hleft
    obtain hdone | ⟨c₁, queue₁, hreach, h₁, hless⟩ :=
      h.goes_on hv hdistinct hdeflating hideal hzlib hplayable hturning
    · exact ⟨c, .refl, hdone⟩
    · obtain ⟨c', hreach', hdone⟩ := ih c₁.remaining hless h₁ rfl
      exact ⟨c', hreach.trans hreach', hdone⟩

/-- **No run gets stuck.** However far two ends have come, in whatever order and with whatever on
its way, they can still come to the end of the script. -/
theorem connection_completes (hfresh : ∀ side, (providers side).Fresh)
    (hreach : (Connection.start script providers).Reaches aes key c) :
    ∃ c', c.Reaches aes key c' ∧ ∀ side, (c' side).party.due = [] := by
  obtain ⟨queue, h⟩ := Sound.run hv hdistinct hdeflating hideal hzlib hturning hfresh hreach
  exact h.completes hv hdistinct hdeflating hideal hzlib hplayable hturning

end Run

end Progress

/-- The server asks for encryption, the client agrees, and the next packet is encrypted. -/
theorem connection_completes_login :
    let status : Tables := ⟨⟨[⟨0, "Response"⟩, ⟨1, "Ping"⟩], by decide, by decide⟩,
      ⟨[⟨0, "Request"⟩, ⟨1, "Ping"⟩], by decide, by decide⟩⟩
    let login : Tables :=
      ⟨⟨[⟨0, "Disconnect"⟩, ⟨1, "EncryptionRequest"⟩, ⟨2, "LoginSuccess"⟩], by decide, by decide⟩,
      ⟨[⟨0, "LoginStart"⟩, ⟨1, "EncryptionResponse"⟩], by decide, by decide⟩⟩
    let play : Tables := ⟨⟨[⟨0, "KeepAlive"⟩, ⟨1, "JoinGame"⟩], by decide, by decide⟩,
      ⟨[⟨0, "KeepAlive"⟩, ⟨1, "ChatMessage"⟩], by decide, by decide⟩⟩
    let v := buildProtocolPre1_21_2 ⟨status, login, play⟩
    let aes : Block → Block → Block := fun _ _ _ => 1
    let key : Block := fun _ => 0
    let compressor : Stored.Deflater := ⟨false, false, [], Stored.adlerStart, [], Stored.start⟩
    let provider : DefaultStreamProvider Stored.Deflater Stored.Inflater Segments Collected :=
      .new ⟨[], by simp⟩ ⟨[]⟩ compressor ⟨Stored.start, []⟩ 64
    let request : Message v :=
      ⟨.clientboundLoginPacket, ⟨"EncryptionRequest", by decide⟩, ⟨1, [[7]], none⟩⟩
    let response : Message v :=
      ⟨.serverboundLoginPacket, ⟨"EncryptionResponse", by decide⟩, ⟨1, [[8]], none⟩⟩
    let success : Message v := ⟨.clientboundLoginPacket, ⟨"LoginSuccess", by decide⟩, ⟨1, [[9]], none⟩⟩
    let script : Script v :=
      [.act (.take .intoLoginState), .message .right request, .message .left response,
      .act .withEncryption, .act (.setCompressionThreshold (some 256)), .message .right success]
    ∃ c, (Connection.start script fun _ => provider).Reaches aes key c ∧
      ∀ side, (c side).party.due = [] := by
  intro status login play v aes key compressor provider request response success script
  have hdistinct : (BuildProtocolPre1_21_2.Input.plan ⟨status, login, play⟩).Distinct := by
    intro s table htable
    obtain ⟨bound, phase⟩ := s
    cases phase <;> cases bound <;> cases htable <;> exact by decide
  have hturning : Turning Act.Encrypts none script := by
    simp [script, Turning, Act.Encrypts, speaker, Switched]
  have hbelow : ∃ body, plainBody (some 256) ⟨success.packet.id⟩ success.payload = some body ∧
      body.size ≤ maxPacketSize :=
    ⟨(success.payload.behind ⟨success.packet.id⟩).behind (.ofNat 0),
      by decide +kernel, by decide +kernel⟩
  have hplayable : Playable (BuildProtocolPre1_21_2.Input.plan ⟨status, login, play⟩) [] script :=
    ⟨rfl, ⟨⟨.login, rfl, rfl⟩, ⟨_, rfl, by decide⟩, rfl, rfl⟩,
      ⟨⟨.login, rfl, rfl⟩, ⟨_, rfl, by decide⟩, rfl, rfl⟩,
      rfl, rfl, ⟨⟨.login, rfl, rfl⟩, hbelow, rfl, rfl⟩, trivial⟩
  exact connection_completes (.buildProtocolPre1_21_2 ⟨status, login, play⟩) hdistinct
    Stored.Deflater.deflating Stored.Inflater.ideal
    (fun s h => Stored.Deflater.Complete.yields h s) hplayable
    hturning (fun _ => ⟨compressor, _, 64, by decide, rfl⟩) .refl

end Protocraft
