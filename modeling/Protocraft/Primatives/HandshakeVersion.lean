import Protocraft.Primatives.VarInt

/-! The first packet of a connection, told apart by its first byte.

A client newer than 1.6 sends the length of its handshake packet as a three-byte
`VarInt`; an older one sends `0xFE`, and what more it sent by then says how old it
is. The length has a decoder of its own, which starts from the first byte as it
is, with its continuation bit: that bit is the lowest one of the second group, so
the length comes out right just when the group has that bit too
(`HandshakeVersion.agrees_iff`). -/
namespace Protocraft
open Protocraft.Stream

/-- Represents Minecraft versions >1.6, 1.6, 1.4-1.5 and <=1.3. -/
inductive HandshakeVersion where
  | standard (bound : Nat)
  | legacy1_6 (bound : Nat)
  | pre1_6
  | pre1_3
  deriving DecidableEq, Repr

/-- `MC|PingHost` in UTF-16BE. -/
def pingHost : Bytes :=
  [0x00, 0x4D, 0x00, 0x43, 0x00, 0x7C, 0x00, 0x50, 0x00, 0x69, 0x00, 0x6E, 0x00, 0x67, 0x00, 0x48,
    0x00, 0x6F, 0x00, 0x73, 0x00, 0x74]

/-- `i16::from_be_bytes`. -/
def i16FromBeBytes (bytes : Bytes) : BitVec 16 := bytes.headD 0 ++ bytes.tail.headD 0

namespace HandshakeVersion

/-- The length of a modern handshake, from its first byte on. -/
def standardLength (firstByte : Byte) : Program ReadError Unit (BitVec 32) :=
  let value := firstByte.setWidth 32
  if value &&& continueMaskU32 = 0 then pure value
  else VarInt.readSegments (.overSized "handshake_varint" 3 4) (List.range' 7 3 7) value

def standardFromReader (firstByte : Byte) : Program ReadError Unit HandshakeVersion := do
  let value ← standardLength firstByte
  if value.toInt < 0 then throw (.negativeLength "handshake_varint")
  else return .standard value.toNat

section Reader
variable {ρ : Type} [Read ρ] [SetBlocking ρ]

/-- `Reader::try_read_byte`, after its wait for the bytes on their way: none if
the stream would block. -/
def tryReadByte : Action IoError ρ (Option Byte) := do
  SetBlocking.setBlocking false
  let result ← attempt (Stream.readExact 1)
  SetBlocking.setBlocking true
  match result with
  | .ok bytes => return some (bytes.headD 0)
  | .error error => if error.kind = .wouldBlock then return none else throw error

def legacyFromReader : Action ReadError ρ HandshakeVersion := do
  match ← mapError .streamError tryReadByte with
  | none => return .pre1_3
  | some nextByte =>
    if nextByte ≠ 0x01 then throw .malformedLegacyPing
    match ← mapError .streamError tryReadByte with
    | none => return .pre1_6
    | some channelByte =>
      if channelByte ≠ 0xFA then throw .malformedLegacyPing
      let channelLength ← (readBytes 2).onReader
      if i16FromBeBytes channelLength ≠ 0x0B then throw .malformedLegacyPing
      let channel ← (readBytes 22).onReader
      if channel ≠ pingHost then throw .malformedLegacyPing
      let dataLength ← (readBytes 2).onReader
      let bound := i16FromBeBytes dataLength
      if bound.toInt < 0 then throw (.negativeLength "legacy_ping_bound")
      return .legacy1_6 bound.toNat

def fromReader : Action ReadError ρ HandshakeVersion := do
  let firstByte ← readU8.onReader
  if firstByte = 0xFE then legacyFromReader else (standardFromReader firstByte).onReader

end Reader

/-! ### On the bytes -/

theorem standard_onBytes {b : Byte} {c rest : Bytes} {value : BitVec 32}
    (hlength : (standardLength b).onBytes c = (.ok value, rest)) (hvalue : value.toNat < 2 ^ 31) :
    (standardFromReader b).onBytes c = (.ok (.standard value.toNat), rest) := by
  have hpos : ¬ value.toInt < 0 := by
    rw [BitVec.toInt_eq_toNat_of_lt (by omega)]
    omega
  refine (Program.eval_bind_ok hlength).trans ?_
  rw [if_neg hpos]
  rfl

theorem standard_onBytes_last {b : Byte} (hb : b.toNat < 128) (c : Bytes) :
    (standardFromReader b).onBytes c = (.ok (.standard b.toNat), c) := by
  have hvalue : (b.setWidth 32).toNat = b.toNat := BitVec.toNat_setWidth_of_le (by decide)
  rw [← hvalue]
  refine standard_onBytes ?_ (by omega)
  rw [standardLength, if_pos ((VarInt.continues_iff b).mpr hb)]
  rfl

theorem or_one (m : Nat) : m ||| 1 = m / 2 * 2 + 1 := by
  have hm : m = 2 ^ 1 * (m / 2) ||| m % 2 := by
    rw [← Nat.two_pow_add_eq_or_of_lt (by omega)]
    omega
  have hone : m % 2 ||| 1 = 1 := by
    rcases Nat.mod_two_eq_zero_or_one m with h | h <;> rw [h] <;> rfl
  rw [hm, Nat.or_assoc, hone, ← Nat.two_pow_add_eq_or_of_lt (by decide)]
  omega

/-- The continuation bit of the first byte becomes the lowest bit of the second
group. -/
theorem or_first {b : Byte} (hb : ¬ b.toNat < 128) {m : Nat} (hm : m < 2 ^ 14) :
    (b.setWidth 32 ||| BitVec.ofNat 32 m <<< 7).toNat = b.toNat % 128 + 128 * (m ||| 1) := by
  have hlt := b.isLt
  have hfirst : b.toNat = 2 ^ 7 * 1 ||| b.toNat % 128 := by
    rw [← Nat.two_pow_add_eq_or_of_lt (by omega)]
    omega
  have hgroup : (BitVec.ofNat 32 m <<< 7).toNat = 2 ^ 7 * m := by
    rw [BitVec.toNat_shiftLeft, BitVec.toNat_ofNat, Nat.shiftLeft_eq]
    omega
  have hgroups : 2 ^ 7 * 1 ||| 2 ^ 7 * m = 2 ^ 7 * (m ||| 1) := by
    rw [Nat.mul_comm, Nat.mul_comm (2 ^ 7) m, Nat.mul_comm (2 ^ 7) (m ||| 1), ← Nat.shiftLeft_eq,
      ← Nat.shiftLeft_eq, ← Nat.shiftLeft_eq, ← Nat.shiftLeft_or_distrib, Nat.or_comm 1 m]
  rw [BitVec.toNat_or, BitVec.toNat_setWidth_of_le (by decide), hgroup, hfirst, Nat.or_assoc,
    Nat.or_comm (b.toNat % 128), ← Nat.or_assoc, hgroups, ← Nat.two_pow_add_eq_or_of_lt (by omega)]
  omega

theorem standard_onBytes_more {b : Byte} (hb : ¬ b.toNat < 128) {c rest : Bytes} {m : Nat}
    (h : Leb128.decode 2 c = some (m, rest)) :
    (standardFromReader b).onBytes c = (.ok (.standard (b.toNat % 128 + 128 * (m ||| 1))), rest) := by
  have hm : m < 2 ^ 14 := Leb128.decode_lt h
  rw [← or_first hb hm]
  refine standard_onBytes ?_ ?_
  · obtain ⟨used, rfl, hlen, hused⟩ := Leb128.decode_split h
    rw [standardLength, if_neg (mt (VarInt.continues_iff b).mp hb)]
    exact VarInt.readSegments_eval _ _ 3 7 m _ _ _ (hused 3 rest (by omega))
  · rw [or_first hb hm, or_one]
    omega

/-! ### Agreement with `VarInt` -/

section Agreement
variable {ρ : Type} [Read ρ] {R : ρ → Bytes → Prop}

/-- Both decoders give the same length and leave the same bytes. -/
def Agrees [SetBlocking ρ] (R : ρ → Bytes → Prop) (r : ρ) : Prop :=
  ∃ n r₁ r₂ rest, taking 3 VarInt.fromReader.onReader r = (.ok (⟨n⟩ : VarInt), r₁) ∧
    (fromReader r : Except ReadError HandshakeVersion × ρ) = (.ok (.standard n.toNat), r₂) ∧
    R r₁ rest ∧ R r₂ rest

/-- `VarInt` under the bound of three bytes reads the number there. -/
theorem varInt_within (h : Delivers R Never) {r : ρ} {c rest : Bytes} {n : Nat} (hr : R r c)
    (hterm : Leb128.decode 3 c = some (n, rest)) : ∃ r',
      taking 3 VarInt.fromReader.onReader r = (.ok (⟨BitVec.ofNat 32 n⟩ : VarInt), r') ∧ R r' rest := by
  obtain ⟨used, rfl, hlen, hused⟩ := Leb128.decode_split hterm
  have hcapped : Capped R (rest.drop (3 - used.length)) (⟨r, 3⟩ : Take ρ)
      (used ++ rest.take (3 - used.length)) := by
    refine ⟨by simpa using hr, by simp; omega, fun hlt => ?_⟩
    simp only [List.length_append, List.length_take] at hlt
    exact List.drop_eq_nil_of_le (by omega)
  have heval := VarInt.fromReader_eval (fun _ => ()) (hused 5 (rest.take (3 - used.length)) (by omega))
  obtain ⟨t, hrun, hleft, -, -⟩ := Program.onReader_eq (h.take _) hcapped heval
  refine ⟨t.inner, by simp [taking, hrun], ?_⟩
  simpa using hleft

theorem fromReader_standard [SetBlocking ρ] (h : Delivers R Never) {r : ρ} {first : Byte}
    {c rest : Bytes} {reply : Except ReadError HandshakeVersion} (hr : R r (first :: c))
    (hfirst : first ≠ 0xFE) (hstandard : (standardFromReader first).onBytes c = (reply, rest)) :
    ∃ r',
      fromReader r = (reply, r') ∧ R r' rest := by
  obtain ⟨r₁, hbyte, hr₁⟩ := Program.onReader_eq h hr (readU8_eval_cons _ first c)
  obtain ⟨r₂, hlength, hr₂⟩ := Program.onReader_eq h hr₁ hstandard
  refine ⟨r₂, ?_, hr₂⟩
  rw [fromReader, bind_ok hbyte, if_neg hfirst, hlength]

/-- The length comes out right, or 128 too great. -/
theorem fromReader_length [SetBlocking ρ] (h : Delivers R Never) {r : ρ} {first : Byte}
    {c rest : Bytes} {n : Nat} (hr : R r (first :: c)) (hfirst : first ≠ 0xFE)
    (hterm : Leb128.decode 3 (first :: c) = some (n, rest)) : ∃ m r',
      (fromReader r : Except ReadError HandshakeVersion × ρ) = (.ok (.standard m), r') ∧ R r' rest ∧
        m = n + if first.toNat < 128 ∨ (c.headD 0).toNat % 2 = 1 then 0 else 128 := by
  rw [Leb128.decode] at hterm
  split at hterm
  next hlast =>
    cases hterm
    obtain ⟨r', hrun, hr'⟩ := fromReader_standard h hr hfirst (standard_onBytes_last hlast c)
    exact ⟨first.toNat, r', hrun, hr', by rw [if_pos (.inl hlast), Nat.add_zero]⟩
  next hmore =>
    obtain ⟨⟨m, c'⟩, hrest, heq⟩ := Option.map_eq_some_iff.mp hterm
    cases heq
    obtain ⟨r', hrun, hr'⟩ := fromReader_standard h hr hfirst (standard_onBytes_more hmore hrest)
    refine ⟨_, r', hrun, hr', ?_⟩
    have hodd : m % 2 = (c.headD 0).toNat % 2 := by
      cases c with
      | nil => cases hrest
      | cons second tail => exact Leb128.decode_mod_two hrest
    rw [or_one]
    split <;> omega

/-- **The two decoders agree just when the continuation bit of the first byte does
no harm**: there is none, or the second group has that bit anyway. -/
theorem agrees_iff [SetBlocking ρ] (h : Delivers R Never) {r : ρ} {first : Byte} {c rest : Bytes}
    {n : Nat} (hr : R r (first :: c)) (hfirst : first ≠ 0xFE)
    (hterm : Leb128.decode 3 (first :: c) = some (n, rest)) :
    Agrees R r ↔ first.toNat < 128 ∨ (c.headD 0).toNat % 2 = 1 := by
  obtain ⟨r₁, hvarInt, hr₁⟩ := varInt_within h hr hterm
  obtain ⟨m, r₂, hstandard, hr₂, hm⟩ := fromReader_length h hr hfirst hterm
  have hn : n < 128 ^ 3 := Leb128.decode_lt hterm
  have hvalue : (BitVec.ofNat 32 n).toNat = n := by
    rw [BitVec.toNat_ofNat]
    omega
  have hright : first.toNat < 128 ∨ (c.headD 0).toNat % 2 = 1 ↔ m = n := by
    rw [hm]
    split <;> omega
  rw [hright]
  constructor
  · intro h
    obtain ⟨value, r₁', r₂', rest', hvarInt', hstandard', -, -⟩ := h
    rw [hvarInt] at hvarInt'
    rw [hstandard] at hstandard'
    cases hvarInt'
    cases hstandard'
    exact hvalue
  · intro heq
    subst heq
    exact ⟨_, r₁, r₂, rest, hvarInt, by rw [hvalue]; exact hstandard, hr₁, hr₂⟩

/-- A handshake of 256 bytes is taken for one of 384. -/
theorem disagrees : ¬ Agrees Slice.Holds ⟨[0x80, 0x02]⟩ := by
  intro h
  obtain ⟨n, r₁, r₂, rest, hvarInt, hstandard, -, -⟩ := h
  have h₁ : taking 3 VarInt.fromReader.onReader (⟨[0x80, 0x02]⟩ : Slice) = (.ok ⟨256⟩, ⟨[]⟩) := rfl
  have h₂ : (fromReader (⟨[0x80, 0x02]⟩ : Slice) : Except ReadError HandshakeVersion × Slice) =
      (.ok (.standard 384), ⟨[]⟩) := rfl
  rw [h₁] at hvarInt
  rw [h₂] at hstandard
  cases hvarInt
  cases hstandard

/-- A length of 130, whose second group is odd. -/
theorem agrees_odd : Agrees Slice.Holds ⟨[0x82, 0x01]⟩ :=
  (agrees_iff Slice.delivers rfl (by decide) (by decide :
    Leb128.decode 3 [0x82, 0x01] = some (130, []))).mpr (.inr rfl)

end Agreement

/-! ### Legacy pings -/

section Legacy
variable {ρ : Type} [Read ρ] [SetBlocking ρ] {R : ρ → Bytes → Prop}

/-- Trying for a byte takes the next one, or none and it is still to come. -/
def Tries (R : ρ → Bytes → Prop) : Prop := ∀ {r c}, R r c →
  (∃ r' e, tryReadByte r = (.error e, r')) ∨ (∃ r', tryReadByte r = (.ok none, r') ∧ R r' c) ∨
    ∃ r' b c', tryReadByte r = (.ok (some b), r') ∧ c = b :: c' ∧ R r' c'

/-- The two bytes behind the first have come when they are tried for. -/
def AtHand (r : ρ) : Prop := ∃ b₀ r₁ b₁ r₂ b₂ r₃,
  (readU8.onReader r : Except ReadError Byte × ρ) = (.ok b₀, r₁) ∧ tryReadByte r₁ = (.ok (some b₁), r₂) ∧
    tryReadByte r₂ = (.ok (some b₂), r₃)

/-- A 1.6 ping, up to the length of its data. -/
def ping : Bytes := [0xFE, 0x01, 0xFA, 0x00, 0x0B] ++ pingHost

omit [SetBlocking ρ] in
theorem readBytes_onReader (h : Delivers R Never) {r : ρ} {c : Bytes} (hr : R r c) (k : Nat) :
    ∃ reply r', (readBytes k).onReader r = (reply, r') ∧
      (reply = .error (.streamError failedToFill) ∧ c.length < k ∧ R r' [] ∨
        ∃ bytes c', reply = .ok bytes ∧ bytes.length = k ∧ c = bytes ++ c' ∧ R r' c') := by
  by_cases hk : k ≤ c.length
  · have heval : (readBytes k : Program ReadError Unit Bytes).onBytes c =
        (.ok (c.take k), c.drop k) := by
      simp [readBytes, Program.onBytes, Program.eval, exactly, hk, Except.mapError]
    obtain ⟨r', hrun, hr'⟩ := Program.onReader_eq h hr heval
    exact ⟨_, r', hrun,
      .inr ⟨_, _, rfl, List.length_take_of_le hk, (List.take_append_drop k c).symm, hr'⟩⟩
  · have heval : (readBytes k : Program ReadError Unit Bytes).onBytes c =
        (.error (.streamError failedToFill), []) := by
      simp [readBytes, Program.onBytes, Program.eval, exactly, hk, Except.mapError]
    obtain ⟨r', hrun, hr'⟩ := Program.onReader_eq h hr heval
    exact ⟨_, r', hrun, .inl ⟨rfl, Nat.not_le.mp hk, hr'⟩⟩

theorem i16FromBeBytes_eq_eleven {bytes : Bytes} (hlength : bytes.length = 2)
    (h : i16FromBeBytes bytes = 0x0B) :
    bytes = [0x00, 0x0B] := by
  match bytes, hlength with
  | [x, y], _ =>
    have hy := y.isLt
    have hvalue : x.toNat <<< 8 ||| y.toNat = 11 :=
      (BitVec.toNat_append x y).symm.trans (congrArg BitVec.toNat h)
    rw [Nat.shiftLeft_eq, Nat.mul_comm, ← Nat.two_pow_add_eq_or_of_lt hy] at hvalue
    have hx₀ : x.toNat = (0x00 : Byte).toNat := show x.toNat = 0 by omega
    have hy₀ : y.toNat = (0x0B : Byte).toNat := show y.toNat = 11 by omega
    rw [BitVec.eq_of_toNat_eq hx₀, BitVec.eq_of_toNat_eq hy₀]

/-- From the channel's name on. -/
def channelFromReader : Action ReadError ρ HandshakeVersion := do
  let channelLength ← (readBytes 2).onReader
  if i16FromBeBytes channelLength ≠ 0x0B then throw .malformedLegacyPing
  else
    let channel ← (readBytes 22).onReader
    if channel ≠ pingHost then throw .malformedLegacyPing
    else
      let dataLength ← (readBytes 2).onReader
      if (i16FromBeBytes dataLength).toInt < 0 then throw (.negativeLength "legacy_ping_bound")
      else return .legacy1_6 (i16FromBeBytes dataLength).toNat

theorem legacyFromReader_eq : (legacyFromReader : Action ReadError ρ HandshakeVersion) = (do
    match ← mapError .streamError tryReadByte with
    | none => return .pre1_3
    | some nextByte =>
      if nextByte ≠ 0x01 then throw .malformedLegacyPing
      else
        match ← mapError .streamError tryReadByte with
        | none => return .pre1_6
        | some channelByte =>
          if channelByte ≠ 0xFA then throw .malformedLegacyPing else channelFromReader) :=
  rfl

/-- What reading a legacy handshake comes to: the stream fails, or up to 29 bytes are taken,
all of them just for a 1.6 ping. -/
inductive LegacyOutcome (R : ρ → Bytes → Prop) (c : Bytes) : Except ReadError HandshakeVersion × ρ → Prop
  | ended (e : IoError) (r : ρ) : LegacyOutcome R c (.error (.streamError e), r)
  | early (reply : Except ReadError HandshakeVersion) (r : ρ) (used : Bytes) {left : Bytes}
      (hc : c = used ++ left) (hr : R r left) (hused : used.length ≤ 29)
      (hreply : (∃ e, reply = .error e) ∨ reply = .ok .pre1_6 ∨ reply = .ok .pre1_3) :
      LegacyOutcome R c (reply, r)
  | pinged (r : ρ) {dataLength left : Bytes} (hc : c = ping ++ dataLength ++ left) (hr : R r left)
      (hlength : dataLength.length = 2) :
      LegacyOutcome R c (.ok (.legacy1_6 (i16FromBeBytes dataLength).toNat), r)

omit [SetBlocking ρ] in
theorem channelFromReader_outcome (h : Delivers R Never) {r : ρ} {c : Bytes} (hr : R r c) :
    LegacyOutcome R (0xFE :: 0x01 :: 0xFA :: c) (channelFromReader r) := by
  rw [channelFromReader]
  obtain ⟨reply, r₁, hread, ⟨rfl, -, -⟩ | ⟨bytes, c₁, rfl, hlength, rfl, hr₁⟩⟩ :=
    readBytes_onReader h hr 2
  · rw [bind_error hread]
    exact .ended _ _
  rw [bind_ok hread]
  split
  · refine .early _ _ ([0xFE, 0x01, 0xFA] ++ bytes) (by simp) hr₁ ?_ (.inl ⟨_, rfl⟩)
    simp only [List.length_append, List.length_cons, List.length_nil]
    omega
  next hname =>
    obtain ⟨reply, r₂, hread, ⟨rfl, -, -⟩ | ⟨channel, c₂, rfl, hchannel, rfl, hr₂⟩⟩ :=
      readBytes_onReader h hr₁ 22
    · rw [bind_error hread]
      exact .ended _ _
    rw [bind_ok hread]
    split
    · refine .early _ _ ([0xFE, 0x01, 0xFA] ++ bytes ++ channel) (by simp) hr₂ ?_ (.inl ⟨_, rfl⟩)
      simp only [List.length_append, List.length_cons, List.length_nil]
      omega
    next hhost =>
      obtain ⟨reply, r₃, hread, ⟨rfl, -, -⟩ | ⟨dataLength, left, rfl, hdata, rfl, hr₃⟩⟩ :=
        readBytes_onReader h hr₂ 2
      · rw [bind_error hread]
        exact .ended _ _
      rw [bind_ok hread]
      split
      · refine .early _ _ ([0xFE, 0x01, 0xFA] ++ bytes ++ channel ++ dataLength) (by simp) hr₃ ?_
          (.inl ⟨_, rfl⟩)
        simp only [List.length_append, List.length_cons, List.length_nil]
        omega
      · refine .pinged _ ?_ hr₃ hdata
        rw [i16FromBeBytes_eq_eleven hlength (not_not.mp hname), not_not.mp hhost]
        rfl

/-- **What a legacy handshake takes of the stream.** -/
theorem fromReader_legacy (h : Delivers R Never) (htries : Tries R) {r : ρ} {c : Bytes}
    (hr : R r (0xFE :: c)) :
    LegacyOutcome R (0xFE :: c) (fromReader r) := by
  obtain ⟨r₁, hfirst, hr₁⟩ := Program.onReader_eq h hr (readU8_eval_cons _ 0xFE c)
  rw [fromReader, bind_ok hfirst, if_pos rfl, legacyFromReader_eq]
  rcases htries hr₁ with ⟨r₂, e, htry⟩ | ⟨r₂, htry, hr₂⟩ | ⟨r₂, b₁, c₁, htry, rfl, hr₂⟩
  · rw [bind_error (mapError_error htry)]
    exact .ended e _
  · rw [bind_ok (mapError_ok htry)]
    exact .early _ _ [0xFE] rfl hr₂ (by simp) (.inr (.inr rfl))
  rw [bind_ok (mapError_ok htry)]
  dsimp only
  split
  · exact .early _ _ [0xFE, b₁] rfl hr₂ (by simp) (.inl ⟨_, rfl⟩)
  next hb₁ =>
    obtain rfl := not_not.mp hb₁
    rcases htries hr₂ with ⟨r₃, e, htry⟩ | ⟨r₃, htry, hr₃⟩ | ⟨r₃, b₂, c₂, htry, rfl, hr₃⟩
    · rw [bind_error (mapError_error htry)]
      exact .ended e _
    · rw [bind_ok (mapError_ok htry)]
      exact .early _ _ [0xFE, 0x01] rfl hr₃ (by simp) (.inr (.inl rfl))
    rw [bind_ok (mapError_ok htry)]
    dsimp only
    split
    · exact .early _ _ [0xFE, 0x01, b₂] rfl hr₃ (by simp) (.inl ⟨_, rfl⟩)
    next hb₂ =>
      obtain rfl := not_not.mp hb₂
      exact channelFromReader_outcome h hr₃

omit [SetBlocking ρ] in
theorem readBytes_onReader_append (h : Delivers R Never) {r : ρ} {k : Nat} {bytes c : Bytes}
    (hlength : bytes.length = k) (hr : R r (bytes ++ c)) :
    ∃ r', (readBytes k).onReader r = (.ok bytes, r') ∧ R r' c := by
  subst hlength
  refine Program.onReader_eq h hr ?_
  simp only [readBytes, Program.onBytes, Program.eval, exactly_append]
  rfl

theorem Tries.found (htries : Tries R) {r r' : ρ} {b b' : Byte} {c : Bytes} (hr : R r (b :: c))
    (htry : tryReadByte r = (.ok (some b'), r')) : b' = b ∧ R r' c := by
  rcases htries hr with ⟨r₁, e, hreply⟩ | ⟨r₁, hreply, -⟩ | ⟨r₁, b₁, c₁, hreply, hc, hr₁⟩ <;>
    rw [htry] at hreply <;> cases hreply
  cases hc
  exact ⟨rfl, hr₁⟩

/-- What is read as a ping was at hand. -/
theorem fromReader_atHand (h : Delivers R Never) (htries : Tries R) {r r' : ρ} {c : Bytes} {bound : Nat}
    (hr : R r (0xFE :: c)) (hversion : fromReader r = (.ok (.legacy1_6 bound), r')) : AtHand r := by
  obtain ⟨r₁, hfirst, hr₁⟩ := Program.onReader_eq h hr (readU8_eval_cons _ 0xFE c)
  rw [fromReader, bind_ok hfirst, if_pos rfl, legacyFromReader_eq] at hversion
  rcases htries hr₁ with ⟨r₂, e, htry₁⟩ | ⟨r₂, htry₁, -⟩ | ⟨r₂, b₁, c₁, htry₁, rfl, hr₂⟩
  · rw [bind_error (mapError_error htry₁)] at hversion
    cases hversion
  · rw [bind_ok (mapError_ok htry₁)] at hversion
    cases hversion
  rw [bind_ok (mapError_ok htry₁)] at hversion
  dsimp only at hversion
  split at hversion
  · cases hversion
  rcases htries hr₂ with ⟨r₃, e, htry₂⟩ | ⟨r₃, htry₂, -⟩ | ⟨r₃, b₂, c₂, htry₂, -, -⟩
  · rw [bind_error (mapError_error htry₂)] at hversion
    cases hversion
  · rw [bind_ok (mapError_ok htry₂)] at hversion
    cases hversion
  · exact ⟨_, r₁, b₁, r₂, b₂, r₃, hfirst, htry₁, htry₂⟩

/-- A ping is read as one if it is at hand. -/
theorem fromReader_ping (h : Delivers R Never) (htries : Tries R) {r : ρ} {dataLength c : Bytes}
    (hr : R r (ping ++ dataLength ++ c)) (hhand : AtHand r) (hlength : dataLength.length = 2)
    (hpositive : ¬ (i16FromBeBytes dataLength).toInt < 0) :
    (fromReader r).1 = .ok (.legacy1_6 (i16FromBeBytes dataLength).toNat) := by
  obtain ⟨b₀, r₁, b₁, r₂, b₂, r₃, hfirst, htry₁, htry₂⟩ := hhand
  obtain ⟨r₁', hfirst', hr₁⟩ := Program.onReader_eq h hr (readU8_eval_cons _ 0xFE _)
  rw [hfirst] at hfirst'
  cases hfirst'
  obtain ⟨rfl, hr₂⟩ := htries.found hr₁ htry₁
  obtain ⟨rfl, hr₃⟩ := htries.found hr₂ htry₂
  have hr₃' : R r₃ ([0x00, 0x0B] ++ (pingHost ++ (dataLength ++ c))) := by
    rw [← List.append_assoc pingHost]
    exact hr₃
  obtain ⟨r₄, hname, hr₄⟩ := readBytes_onReader_append h (show _ = 2 from rfl) hr₃'
  obtain ⟨r₅, hchannel, hr₅⟩ := readBytes_onReader_append h (show _ = 22 from rfl) hr₄
  obtain ⟨r₆, hdata, -⟩ := readBytes_onReader_append h hlength hr₅
  rw [fromReader, bind_ok hfirst, if_pos rfl, legacyFromReader_eq, bind_ok (mapError_ok htry₁)]
  dsimp only
  rw [if_neg (not_not.mpr rfl), bind_ok (mapError_ok htry₂)]
  dsimp only
  have hnamed : ¬ i16FromBeBytes [0x00, 0x0B] ≠ 0x0B := by decide
  rw [if_neg (not_not.mpr rfl), channelFromReader, bind_ok hname, if_neg hnamed, bind_ok hchannel,
    if_neg (not_not.mpr rfl), bind_ok hdata, if_neg hpositive]
  rfl

end Legacy

theorem tries_slice : Tries Slice.Holds := by
  intro s c hs
  obtain rfl : s = ⟨c⟩ := congrArg Slice.mk hs
  cases c with
  | nil => exact .inl ⟨_, _, rfl⟩
  | cons b c => exact .inr (.inr ⟨_, b, c, rfl, rfl, rfl⟩)

end HandshakeVersion

end Protocraft
