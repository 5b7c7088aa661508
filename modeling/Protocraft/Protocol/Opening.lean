import Protocraft.Protocol.Handshake
import Protocraft.Protocol.Write

/-! The first bytes of a connection.

The length of a modern handshake is meant to take three bytes, but the loop that reads it
goes on to a fourth (`length_limited_iff`). A first byte of `0xFE` is that of a legacy
handshake, which is read as far as more of it has come (`legacy_grammar`); the length of a
modern one may start so too, and such a handshake is refused (`modern_never_read`). -/
namespace Protocraft
open Protocraft.Stream
open Leb128 (Continues)

namespace HandshakeVersion

/-! ### The length -/

section Length
variable {ρ : Type} [Read ρ] [SetBlocking ρ] {R : ρ → Bytes → Prop}

/-- A handshake is accepted only with a length of three bytes at most, and what does not end
there is refused once three bytes are taken. -/
structure Limited (R : ρ → Bytes → Prop) (r : ρ) (c : Bytes) : Prop where
  accepted : ∀ version, (fromReader r).1 = .ok version → (∃ b ∈ c.take 3, ¬ Continues b) ∧
    ∃ n ≤ maxPacketSize, version = .standard n
  refused : (∀ b ∈ c.take 3, Continues b) → (∃ e, (fromReader r).1 = .error e) ∧
    ∃ left, R (fromReader r).2 left ∧ c.length ≤ left.length + 3

/-- A length whose first byte goes on and that ends within the four bytes. -/
theorem standard_onBytes_long {b : Byte} (hb : ¬ b.toNat < 128) {c rest : Bytes} {m : Nat}
    (h : Leb128.decode 3 c = some (m, rest)) : ∃ n,
      (standardFromReader b).onBytes c = (.ok (.standard n), rest) := by
  have hm : m < 128 ^ 3 := Leb128.decode_lt h
  have hlength : (standardLength b).onBytes c =
      (.ok (b.setWidth 32 ||| BitVec.ofNat 32 m <<< 7), rest) := by
    rw [standardLength, if_neg (mt (VarInt.continues_iff b).mp hb)]
    exact VarInt.readSegments_eval _ _ 3 7 m _ _ _ h
  refine ⟨_, standard_onBytes hlength ?_⟩
  rw [BitVec.toNat_or, BitVec.toNat_shiftLeft, BitVec.toNat_ofNat,
    BitVec.toNat_setWidth_of_le (by decide)]
  have hlt := b.isLt
  refine Nat.or_lt_two_pow (by omega) ?_
  rw [Nat.shiftLeft_eq]
  omega

/-- A length that does not end within the four bytes. -/
theorem standard_onBytes_none {b : Byte} (hb : ¬ b.toNat < 128) {c : Bytes}
    (h : Leb128.decode 3 c = none) :
    ∃ e, (standardFromReader b).onBytes c = (.error e, c.drop 3) := by
  have hsegments := VarInt.readSegments_eval_none (fun _ => ()) (.overSized "handshake_varint" 3 4) 3 7
    (b.setWidth 32) c h
  have hlength : (standardLength b).onBytes c =
      if 3 ≤ c.length then (.error (.overSized "handshake_varint" 3 4), c.drop 3)
      else (.error (.streamError failedToFill), []) := by
    rw [standardLength, if_neg (mt (VarInt.continues_iff b).mp hb)]
    exact hsegments
  split at hlength
  · exact ⟨_, Program.eval_bind_error hlength⟩
  next hshort =>
    have hall : c.drop 3 = [] := List.drop_eq_nil_of_le (by omega)
    rw [hall]
    exact ⟨_, Program.eval_bind_error hlength⟩

/-- What ends within three bytes is a length that a packet may have. -/
theorem standard_onBytes_within {b : Byte} {c rest : Bytes} {n : Nat}
    (h : Leb128.decode 3 (b :: c) = some (n, rest)) : ∃ m ≤ maxPacketSize,
      (standardFromReader b).onBytes c = (.ok (.standard m), rest) := by
  have hlt := b.isLt
  have hmax : maxPacketSize = 128 * 2 ^ 14 - 1 := rfl
  rw [Leb128.decode] at h
  split at h
  next hb =>
    cases h
    exact ⟨_, by omega, standard_onBytes_last hb c⟩
  next hb =>
    obtain ⟨⟨m, c'⟩, hrest, heq⟩ := Option.map_eq_some_iff.mp h
    cases heq
    have hm : m < 2 ^ 14 := Leb128.decode_lt hrest
    refine ⟨_, ?_, standard_onBytes_more hb hrest⟩
    rw [or_one]
    omega

omit [SetBlocking ρ] in
/-- The same read of a packet's length takes three bytes and fails. -/
theorem varInt_over (h : Delivers R Never) {r : ρ} {c : Bytes} (hr : R r c)
    (hall : ∀ b ∈ c.take 3, Continues b) :
    ∃ e r', taking 3 VarInt.fromReader.onReader r =
      ((.error (.streamError e), r') : Except ReadError VarInt × ρ) ∧ R r' (c.drop 3) := by
  have hcapped : Capped R (c.drop 3) (⟨r, 3⟩ : Take ρ) (c.take 3) := by
    refine ⟨by rwa [List.take_append_drop], List.length_take_le _ _, fun hlt => ?_⟩
    have hshort : (c.take 3).length < 3 := hlt
    rw [List.length_take] at hshort
    exact List.drop_eq_nil_of_le (by omega)
  have hnone : Leb128.decode 5 (c.take 3) = none :=
    Leb128.decode_eq_none fun b hb => hall b (List.mem_of_mem_take hb)
  have hshort : ¬ 5 ≤ (c.take 3).length := by
    rw [List.length_take]
    omega
  have heval := VarInt.fromReader_eval_none (fun _ => ()) hnone
  rw [if_neg hshort] at heval
  obtain ⟨t, hrun, hleft, -, -⟩ := Program.onReader_eq (h.take _) hcapped heval
  exact ⟨failedToFill, t.inner, by simp [taking, hrun], by simpa using hleft⟩

theorem limited_of_accepted {r r' : ρ} {c : Bytes} {n : Nat}
    (hrun : fromReader r = (.ok (.standard n), r')) (hn : n ≤ maxPacketSize)
    (hends : ¬ ∀ b ∈ c.take 3, Continues b) : Limited R r c where
  accepted version haccepted := by
    rw [hrun] at haccepted
    cases haccepted
    refine ⟨?_, n, hn, rfl⟩
    simpa using hends
  refused hall := absurd hall hends

theorem limited_of_refused {r r' : ρ} {c left : Bytes} {e : ReadError}
    (hrun : fromReader r = (.error e, r')) (hr' : R r' left) (htaken : c.length ≤ left.length + 3) :
    Limited R r c where
  accepted version haccepted := by
    rw [hrun] at haccepted
    cases haccepted
  refused _ := by
    rw [hrun]
    exact ⟨⟨e, rfl⟩, left, hr', htaken⟩

/-- **The length of a handshake is limited to three bytes but where a fourth one follows three
that go on.** -/
theorem length_limited_iff (h : Delivers R Never) (hdetermined : Determined R) {r : ρ} {c : Bytes}
    (hr : R r c) (hmodern : c.head? ≠ some 0xFE) :
    (Limited R r c ↔ ¬ ((∀ b ∈ c.take 3, Continues b) ∧ 4 ≤ c.length)) ∧
      ((∀ b ∈ c.take 3, Continues b) → ∃ e r', taking 3 VarInt.fromReader.onReader r =
        ((.error (.streamError e), r') : Except ReadError VarInt × ρ) ∧ R r' (c.drop 3)) := by
  refine ⟨?_, varInt_over h hr⟩
  cases c with
  | nil =>
    obtain ⟨r', hbyte, hr'⟩ := Program.onReader_eq h hr (readU8_eval_nil _)
    refine iff_of_true ?_ (by simp)
    have hrun : fromReader r = (.error (.streamError failedToFill), r') := by
      rw [fromReader, bind_error hbyte]
    exact limited_of_refused hrun hr' (Nat.zero_le _)
  | cons first c =>
    have hfirst : first ≠ 0xFE := fun he => hmodern (by rw [he]; rfl)
    cases hlength : Leb128.decode 3 (first :: c) with
    | some read =>
      obtain ⟨n, rest⟩ := read
      have hends : ¬ ∀ b ∈ (first :: c).take 3, Continues b := by
        rw [← Leb128.decode_eq_none_iff, hlength]
        exact Option.some_ne_none _
      obtain ⟨m, hm, hstandard⟩ := standard_onBytes_within hlength
      obtain ⟨r', hrun, -⟩ := fromReader_standard h hr hfirst hstandard
      exact iff_of_true (limited_of_accepted hrun hm hends) fun hover => hends hover.1
    | none =>
      have hall := Leb128.decode_eq_none_iff.mp hlength
      have hmore : ¬ first.toNat < 128 := Nat.not_lt.mpr (hall first List.mem_cons_self)
      by_cases hlong : 4 ≤ (first :: c).length
      · refine iff_of_false (fun hlimited => ?_) (not_not.mpr ⟨hall, hlong⟩)
        obtain ⟨⟨e, hrefused⟩, left, hleft, htaken⟩ := hlimited.refused hall
        cases hbehind : Leb128.decode 3 c with
        | some read =>
          obtain ⟨n, hstandard⟩ := standard_onBytes_long hmore hbehind
          obtain ⟨r', hrun, -⟩ := fromReader_standard h hr hfirst hstandard
          rw [hrun] at hrefused
          cases hrefused
        | none =>
          obtain ⟨e', hstandard⟩ := standard_onBytes_none hmore hbehind
          obtain ⟨r', hrun, hr'⟩ := fromReader_standard h hr hfirst hstandard
          rw [hrun] at hleft
          have hbytes := congrArg List.length (hdetermined hleft hr')
          rw [List.length_drop] at hbytes
          rw [List.length_cons] at htaken hlong
          omega
      · refine iff_of_true ?_ fun hover => hlong hover.2
        rw [List.length_cons] at hlong
        have hbehind : Leb128.decode 3 c = none := by
          refine Leb128.decode_eq_none fun b hb => hall b ?_
          rw [List.take_of_length_le (by rw [List.length_cons]; omega)]
          exact List.mem_cons_of_mem _ (List.mem_of_mem_take hb)
        obtain ⟨e, hstandard⟩ := standard_onBytes_none hmore hbehind
        obtain ⟨r', hrun, hr'⟩ := fromReader_standard h hr hfirst hstandard
        refine limited_of_refused hrun hr' ?_
        rw [List.length_cons, List.length_drop]
        omega

/-- A length of two bytes. -/
theorem length_limited_two : Limited Slice.Holds ⟨[0x82, 0x01]⟩ [0x82, 0x01] :=
  (length_limited_iff Slice.delivers Slice.determined rfl (by decide)).1.mpr (by decide)

/-- A length of four bytes. -/
theorem length_over : ¬ Limited Slice.Holds ⟨[0x80, 0x80, 0x80, 0x01]⟩ [0x80, 0x80, 0x80, 0x01] := by
  intro hlimited
  have hrun : (fromReader (⟨[0x80, 0x80, 0x80, 0x01]⟩ : Slice)).1 = .ok (.standard 2097280) := rfl
  obtain ⟨-, n, hn, hstandard⟩ := hlimited.accepted _ hrun
  cases hstandard
  exact absurd hn (by decide)

end Length

/-! ### Legacy handshakes -/

section Legacy
variable {ρ : Type} [Read ρ] [SetBlocking ρ] {R : ρ → Bytes → Prop}

/-- Trying for a byte takes the next one, or none, and does not fail. -/
def Answers (R : ρ → Bytes → Prop) : Prop := ∀ {r c}, R r c →
  (∃ r', tryReadByte r = (.ok none, r') ∧ R r' c) ∨
    ∃ r' b c', tryReadByte r = (.ok (some b), r') ∧ c = b :: c' ∧ R r' c'

/-- How many of the two bytes behind the first have come when they are tried for. -/
def arrived (r : ρ) : Nat :=
  match tryReadByte (readU8.onReader r : Except ReadError Byte × ρ).2 with
  | (.ok (some _), r₂) =>
    match tryReadByte r₂ with
    | (.ok (some _), _) => 2
    | _ => 1
  | _ => 0

/-- The legacy handshakes, by the number of bytes that have come behind the first one; the last
argument is what is behind the handshake. -/
inductive Legacy : Nat → Bytes → HandshakeVersion → Bytes → Prop
  | pre1_3 {rest : Bytes} : Legacy 0 (0xFE :: rest) .pre1_3 rest
  | pre1_6 {rest : Bytes} : Legacy 1 (0xFE :: 0x01 :: rest) .pre1_6 rest
  | legacy1_6 {dataLength rest : Bytes} (hlength : dataLength.length = 2)
      (hpositive : 0 ≤ (i16FromBeBytes dataLength).toInt) :
      Legacy 2 (ping ++ dataLength ++ rest) (.legacy1_6 (i16FromBeBytes dataLength).toNat) rest

theorem Answers.tries (h : Answers R) : Tries R := fun hr => .inr (h hr)

/-- Behind the third byte of a ping, up to the length of its data. -/
structure Named (c dataLength rest : Bytes) : Prop where
  bytes : c = [0x00, 0x0B] ++ (pingHost ++ (dataLength ++ rest))
  length : dataLength.length = 2

theorem Named.long {c dataLength rest : Bytes} (h : Named c dataLength rest) : 26 ≤ c.length := by
  have hhost : pingHost.length = 22 := rfl
  have hlength := congrArg List.length h.bytes
  simp only [List.length_append, List.length_cons, List.length_nil, hhost, h.length] at hlength
  omega

theorem Named.unique {c d d' rest rest' : Bytes} (h : Named c d rest) (h' : Named c d' rest') :
    d = d' ∧ rest = rest' := by
  have hsame := List.append_cancel_left (List.append_cancel_left (h.bytes.symm.trans h'.bytes))
  exact List.append_inj hsame (h.length.trans h'.length.symm)

omit [SetBlocking ρ] in
/-- From the channel's name on a ping is accepted, and what is not one is refused. -/
theorem channelFromReader_named (h : Delivers R Never) {r : ρ} {c : Bytes} (hr : R r c) :
    (∃ dataLength rest, Named c dataLength rest ∧ 0 ≤ (i16FromBeBytes dataLength).toInt ∧
      (channelFromReader r).1 = .ok (.legacy1_6 (i16FromBeBytes dataLength).toNat) ∧
        R (channelFromReader r).2 rest) ∨
    (∃ e used left, (channelFromReader r).1 = .error e ∧ c = used ++ left ∧ used.length ≤ 26 ∧
      R (channelFromReader r).2 left ∧
      ∀ dataLength rest, Named c dataLength rest → (i16FromBeBytes dataLength).toInt < 0) := by
  have hhost : pingHost.length = 22 := rfl
  rw [channelFromReader]
  obtain ⟨reply, r₁, hread, ⟨rfl, hshort, hr₁⟩ | ⟨bytes, c₁, rfl, hlength, rfl, hr₁⟩⟩ :=
    readBytes_onReader h hr 2
  · rw [bind_error hread]
    refine .inr ⟨_, c, [], rfl, (List.append_nil c).symm, by omega, hr₁, fun d rest hnamed => ?_⟩
    exact absurd hnamed.long (by omega)
  rw [bind_ok hread]
  split
  next hname =>
    refine .inr ⟨_, bytes, c₁, rfl, rfl, by omega, hr₁, fun d rest hnamed => absurd ?_ hname⟩
    rw [(List.append_inj hnamed.bytes hlength).1]
    decide
  next hname =>
    obtain rfl := i16FromBeBytes_eq_eleven hlength (not_not.mp hname)
    obtain ⟨reply, r₂, hread, ⟨rfl, hshort, hr₂⟩ | ⟨channel, c₂, rfl, hchannel, rfl, hr₂⟩⟩ :=
      readBytes_onReader h hr₁ 22
    · rw [bind_error hread]
      refine .inr ⟨_, _, [], rfl, (List.append_nil _).symm, ?_, hr₂, fun d rest hnamed => ?_⟩
      · rw [List.length_append, hlength]
        omega
      · have hlong := hnamed.long
        rw [List.length_append, hlength] at hlong
        omega
    rw [bind_ok hread]
    split
    next hother =>
      refine .inr ⟨_, [0x00, 0x0B] ++ channel, c₂, rfl, (List.append_assoc _ _ _).symm, ?_, hr₂,
        fun d rest hnamed => ?_⟩
      · rw [List.length_append, hlength]
        omega
      · have hbehind := List.append_cancel_left hnamed.bytes
        exact absurd (List.append_inj hbehind (hchannel.trans hhost.symm)).1 hother
    next hsame =>
      obtain rfl := not_not.mp hsame
      obtain ⟨reply, r₃, hread, ⟨rfl, hshort, hr₃⟩ | ⟨dataLength, rest, rfl, hdata, rfl, hr₃⟩⟩ :=
        readBytes_onReader h hr₂ 2
      · rw [bind_error hread]
        refine .inr ⟨_, _, [], rfl, (List.append_nil _).symm, ?_, hr₃, fun d rest hnamed => ?_⟩
        · rw [List.length_append, List.length_append, hlength, hhost]
          omega
        · have hlong := hnamed.long
          rw [List.length_append, List.length_append, hlength, hhost] at hlong
          omega
      rw [bind_ok hread]
      have hnamed : Named ([0x00, 0x0B] ++ (pingHost ++ (dataLength ++ rest))) dataLength rest :=
        ⟨rfl, hdata⟩
      split
      next hnegative =>
        refine .inr ⟨_, [0x00, 0x0B] ++ (pingHost ++ dataLength), rest, rfl, by simp, ?_, hr₃,
          fun d rest' hnamed' => ?_⟩
        · rw [List.length_append, List.length_append, hlength, hhost, hdata]
        · rwa [← (hnamed.unique hnamed').1]
      next hpositive => exact .inl ⟨dataLength, rest, hnamed, Int.not_lt.mp hpositive, rfl, hr₃⟩

/-- The three kinds, with what is behind the third byte of a ping. -/
theorem Legacy.inv {k : Nat} {c rest : Bytes} {version : HandshakeVersion}
    (h : Legacy k c version rest) :
    (k = 0 ∧ version = .pre1_3 ∧ c = 0xFE :: rest) ∨
      (k = 1 ∧ version = .pre1_6 ∧ c = 0xFE :: 0x01 :: rest) ∨
      (k = 2 ∧ ∃ c' dataLength, c = 0xFE :: 0x01 :: 0xFA :: c' ∧ Named c' dataLength rest ∧
        0 ≤ (i16FromBeBytes dataLength).toInt ∧
          version = .legacy1_6 (i16FromBeBytes dataLength).toNat) := by
  cases h with
  | pre1_3 => exact .inl ⟨rfl, rfl, rfl⟩
  | pre1_6 => exact .inr (.inl ⟨rfl, rfl, rfl⟩)
  | @legacy1_6 dataLength rest hlength hpositive =>
    refine .inr (.inr ⟨rfl, [0x00, 0x0B] ++ (pingHost ++ (dataLength ++ rest)), dataLength, ?_,
      ⟨rfl, hlength⟩, hpositive, rfl⟩)
    rw [ping, List.append_assoc, List.append_assoc]
    rfl

theorem Legacy.unique {k : Nat} {c rest rest' : Bytes} {version version' : HandshakeVersion}
    (h : Legacy k c version rest) (h' : Legacy k c version' rest') :
    version = version' ∧ rest = rest' := by
  obtain ⟨rfl, rfl, hc⟩ | ⟨rfl, rfl, hc⟩ | ⟨rfl, c₁, d, hc, hnamed, -, rfl⟩ := h.inv
  all_goals
    obtain ⟨hk, hversion, hc'⟩ | ⟨hk, hversion, hc'⟩ | ⟨hk, c₁', d', hc', hnamed', -, hversion⟩ := h'.inv
  all_goals cases hk
  all_goals
    subst hversion
    cases hc.symm.trans hc'
  · exact ⟨rfl, rfl⟩
  · exact ⟨rfl, rfl⟩
  · obtain ⟨rfl, rfl⟩ := hnamed.unique hnamed'
    exact ⟨rfl, rfl⟩

/-- What reading comes to: a handshake of the grammar, or an error. -/
inductive Parsed (R : ρ → Bytes → Prop) (k : Nat) (c : Bytes) :
    Except ReadError HandshakeVersion × ρ → Prop
  | accepted {version : HandshakeVersion} {rest : Bytes} {r : ρ} (hlegacy : Legacy k c version rest)
      (hr : R r rest) : Parsed R k c (.ok version, r)
  | refused {e : ReadError} {used left : Bytes} {r : ρ} (hc : c = used ++ left)
      (hused : used.length ≤ 29)
      (hr : R r left) (hnone : ∀ version rest, ¬ Legacy k c version rest) : Parsed R k c (.error e, r)

theorem Legacy.length_le {k : Nat} {c rest : Bytes} {version : HandshakeVersion}
    (h : Legacy k c version rest) :
    ∃ used, c = used ++ rest ∧ used.length ≤ 29 := by
  cases h with
  | pre1_3 => exact ⟨[0xFE], rfl, by simp⟩
  | pre1_6 => exact ⟨[0xFE, 0x01], rfl, by simp⟩
  | @legacy1_6 dataLength rest hlength _ =>
    refine ⟨ping ++ dataLength, rfl, ?_⟩
    have hping : ping.length = 27 := rfl
    rw [List.length_append, hping, hlength]

omit [SetBlocking ρ] in
/-- Behind the three bytes of a ping. -/
theorem channelFromReader_parsed (h : Delivers R Never) {r : ρ} {c : Bytes} (hr : R r c) :
    Parsed R 2 (0xFE :: 0x01 :: 0xFA :: c) (channelFromReader r) := by
  rcases hchannel : channelFromReader r with ⟨reply, r'⟩
  have hnamed := channelFromReader_named h hr
  rw [hchannel] at hnamed
  obtain ⟨d, rest, hnamed, hpositive, hreply, hr'⟩ |
      ⟨e, used, left, hreply, rfl, hused, hr', hnone⟩ := hnamed
  · obtain rfl : reply = _ := hreply
    obtain rfl := hnamed.bytes
    have hlegacy := @Legacy.legacy1_6 d rest hnamed.length hpositive
    rw [ping, List.append_assoc, List.append_assoc] at hlegacy
    exact .accepted hlegacy hr'
  · obtain rfl : reply = _ := hreply
    refine @Parsed.refused _ _ _ _ _ (0xFE :: 0x01 :: 0xFA :: used) left _ rfl ?_ hr'
      fun version rest hlegacy => ?_
    · simp only [List.length_cons]
      omega
    · obtain ⟨hk, -⟩ | ⟨hk, -⟩ | ⟨-, c', d, hc, hnamed, hpositive, -⟩ := hlegacy.inv
      · cases hk
      · cases hk
      · cases hc
        exact absurd (hnone d rest hnamed) (Int.not_lt.mpr hpositive)

theorem fromReader_parsed (h : Delivers R Never) (hanswers : Answers R) {r : ρ} {c : Bytes}
    (hr : R r (0xFE :: c)) : Parsed R (arrived r) (0xFE :: c) (fromReader r) := by
  obtain ⟨r₁, hfirst, hr₁⟩ := Program.onReader_eq h hr (readU8_eval_cons _ 0xFE c)
  rw [fromReader, bind_ok hfirst, if_pos rfl, legacyFromReader_eq]
  obtain ⟨r₂, htry₁, hr₂⟩ | ⟨r₂, b₁, c₁, htry₁, rfl, hr₂⟩ := hanswers hr₁
  · have hnone : arrived r = 0 := by simp only [arrived, hfirst, htry₁]
    rw [bind_ok (mapError_ok htry₁), hnone]
    exact .accepted .pre1_3 hr₂
  rw [bind_ok (mapError_ok htry₁)]
  have hsome : arrived r ≠ 0 := by
    simp only [arrived, hfirst, htry₁]
    split <;> decide
  dsimp only
  split
  next hb₁ =>
    refine @Parsed.refused _ _ _ _ _ [0xFE, b₁] c₁ _ rfl (by simp) hr₂ fun version rest hlegacy => ?_
    obtain ⟨hk, -⟩ | ⟨-, -, hc⟩ | ⟨-, c', d, hc, -⟩ := hlegacy.inv
    · exact hsome hk
    · exact hb₁ (List.cons.inj (List.cons.inj hc).2).1
    · exact hb₁ (List.cons.inj (List.cons.inj hc).2).1
  next hb₁ =>
    obtain rfl := not_not.mp hb₁
    obtain ⟨r₃, htry₂, hr₃⟩ | ⟨r₃, b₂, c₂, htry₂, rfl, hr₃⟩ := hanswers hr₂
    · have hone : arrived r = 1 := by simp only [arrived, hfirst, htry₁, htry₂]
      rw [bind_ok (mapError_ok htry₂), hone]
      exact .accepted .pre1_6 hr₃
    have htwo : arrived r = 2 := by simp only [arrived, hfirst, htry₁, htry₂]
    rw [bind_ok (mapError_ok htry₂), htwo]
    dsimp only
    split
    next hb₂ =>
      refine @Parsed.refused _ _ _ _ _ [0xFE, 0x01, b₂] c₂ _ rfl (by simp) hr₃
        fun version rest hlegacy => ?_
      obtain ⟨hk, -⟩ | ⟨hk, -⟩ | ⟨-, c', d, hc, -⟩ := hlegacy.inv
      · cases hk
      · cases hk
      · exact hb₂ (List.cons.inj (List.cons.inj (List.cons.inj hc).2).2).1
    next hb₂ =>
      obtain rfl := not_not.mp hb₂
      exact channelFromReader_parsed h hr₃

/-- **The grammar of legacy handshakes**, whatever has come when it is tried for: what is read
is what the grammar says of the stream, and nothing is taken behind it, nor more than 29 bytes. -/
theorem legacy_grammar (h : Delivers R Never) (hanswers : Answers R) {r : ρ} {c : Bytes}
    (hr : R r (0xFE :: c)) :
    (∀ version, (fromReader r).1 = .ok version ↔ ∃ rest, Legacy (arrived r) (0xFE :: c) version rest) ∧
    (∀ version rest, Legacy (arrived r) (0xFE :: c) version rest → R (fromReader r).2 rest) ∧
    ∃ used left, 0xFE :: c = used ++ left ∧ used.length ≤ 29 ∧ R (fromReader r).2 left := by
  have hparsed := fromReader_parsed h hanswers hr
  rcases hrun : fromReader r with ⟨reply, r'⟩
  rw [hrun] at hparsed
  cases hparsed with
  | @accepted version rest _ hlegacy hr' =>
    refine ⟨fun version' => ⟨fun hreply => ?_, fun hother => ?_⟩, fun version' rest' hother => ?_, ?_⟩
    · cases hreply
      exact ⟨rest, hlegacy⟩
    · obtain ⟨rest', hother⟩ := hother
      rw [(hlegacy.unique hother).1]
    · rwa [← (hlegacy.unique hother).2]
    · obtain ⟨used, hc, hused⟩ := hlegacy.length_le
      exact ⟨used, rest, hc, hused, hr'⟩
  | refused hc hused hr' hnone =>
    refine ⟨fun version' => ⟨fun hreply => ?_, fun hother => ?_⟩, fun version' rest' hother => ?_, ?_⟩
    · cases hreply
    · obtain ⟨rest', hother⟩ := hother
      exact absurd hother (hnone _ _)
    · exact absurd hother (hnone _ _)
    · exact ⟨_, _, hc, hused, hr'⟩

end Legacy

/-- A transport that may be asked without waiting; `come` tells, for each time it is, whether
there is something by then. -/
structure Socket where
  bytes : Bytes
  blocking : Bool
  come : List Bool
  deriving DecidableEq, Repr

namespace Socket

instance : Read Socket where
  read n := fun s =>
    if s.blocking then (.ok (s.bytes.take n), {s with bytes := s.bytes.drop n})
    else if s.come.headD false ∧ s.bytes ≠ [] then
      (.ok (s.bytes.take n), {s with bytes := s.bytes.drop n, come := s.come.tail})
    else (.error ⟨.wouldBlock, ""⟩, {s with come := s.come.tail})

instance : SetBlocking Socket := ⟨fun blocking s => (.ok (), {s with blocking := blocking})⟩

def Holds (s : Socket) (c : Bytes) : Prop := s.bytes = c ∧ s.blocking = true

theorem delivers : Delivers Holds Never where
  more := by
    intro s c n hn hc hs
    obtain ⟨rfl, hblocking⟩ := hs
    refine ⟨s.bytes.take n, s.bytes.drop n, {s with bytes := s.bytes.drop n}, ?_,
      (List.take_append_drop n _).symm,
      List.length_take_le n _, ⟨rfl, hblocking⟩, fun hnone => ?_, id, fun _ => id⟩
    · exact if_pos hblocking
    · rcases List.take_eq_nil_iff.mp hnone with rfl | hnil
      · exact absurd hn (Nat.lt_irrefl 0)
      · exact absurd hnil hc
  ended := by
    intro s n hn hs
    obtain ⟨hbytes, hblocking⟩ := hs
    refine ⟨s, ?_, ⟨hbytes, hblocking⟩, Iff.rfl⟩
    obtain ⟨bytes, blocking, come⟩ := s
    subst hbytes hblocking
    simp [Read.read]

theorem answers : Answers Holds := by
  intro s c hs
  obtain ⟨bytes, blocking, come⟩ := s
  obtain ⟨rfl, rfl⟩ := hs
  cases bytes with
  | nil => exact .inl ⟨⟨[], true, come.tail⟩, by rcases come with _ | ⟨_ | _, come⟩ <;> rfl, rfl, rfl⟩
  | cons b bytes =>
    rcases come with _ | ⟨_ | _, come⟩
    · exact .inl ⟨⟨b :: bytes, true, []⟩, rfl, rfl, rfl⟩
    · exact .inl ⟨⟨b :: bytes, true, come⟩, rfl, rfl, rfl⟩
    · exact .inr ⟨⟨bytes, true, come⟩, b, bytes, rfl, rfl, rfl, rfl⟩

end Socket

/-- The second byte has come, and the third has not. -/
theorem legacy_grammar_one :
    (fromReader (⟨[0xFE, 0x01, 0xFA], true, [true, false]⟩ : Socket)).1 = .ok .pre1_6 := by
  have harrived : arrived (⟨[0xFE, 0x01, 0xFA], true, [true, false]⟩ : Socket) = 1 := rfl
  have hgrammar := (legacy_grammar Socket.delivers Socket.answers
    (r := ⟨[0xFE, 0x01, 0xFA], true, [true, false]⟩) ⟨rfl, rfl⟩).1 .pre1_6
  rw [harrived] at hgrammar
  exact hgrammar.mpr ⟨[0xFA], .pre1_6⟩

/-! ### Modern handshakes that start as legacy ones do -/

section Modern
variable {ρ : Type} [Read ρ] [SetBlocking ρ] {R : ρ → Bytes → Prop}

/-- All that is tried for has come. -/
def Prompt (R : ρ → Bytes → Prop) : Prop := ∀ {r b c}, R r (b :: c) →
  ∃ r', tryReadByte r = (.ok (some b), r') ∧ R r' c

/-- What is not the start of a ping is refused by its third byte. -/
theorem fromReader_malformed (h : Delivers R Never) (hprompt : Prompt R) {r : ρ}
    {second third : Byte} {c : Bytes} (hr : R r (0xFE :: second :: third :: c))
    (hother : second = 0x01 → third ≠ 0xFA) :
    ∃ r', fromReader r = (.error .malformedLegacyPing, r') := by
  obtain ⟨r₁, hfirst, hr₁⟩ := Program.onReader_eq h hr (readU8_eval_cons _ 0xFE _)
  obtain ⟨r₂, htry₁, hr₂⟩ := hprompt hr₁
  rw [fromReader, bind_ok hfirst, if_pos rfl, legacyFromReader_eq, bind_ok (mapError_ok htry₁)]
  dsimp only
  split
  next => exact ⟨r₂, rfl⟩
  next hsecond =>
    obtain ⟨r₃, htry₂, -⟩ := hprompt hr₂
    rw [bind_ok (mapError_ok htry₂)]
    dsimp only
    rw [if_pos (hother (not_not.mp hsecond))]
    exact ⟨r₃, rfl⟩

/-- A length that starts so has another byte, and ends with it if it is a one. -/
theorem encode_legacy {n : Nat} {tail : Bytes} (h : Leb128.encode n = 0xFE :: tail) :
    ∃ second more, tail = second :: more ∧ (second = 0x01 → more = []) := by
  by_cases hn : n < 128
  · rw [Leb128.encode_last hn] at h
    have hfirst := congrArg BitVec.toNat (List.cons.inj h).1
    rw [BitVec.toNat_ofNat] at hfirst
    have hmarker : (0xFE : Byte).toNat = 254 := rfl
    omega
  · rw [Leb128.encode_more hn] at h
    obtain ⟨-, rfl⟩ := List.cons.inj h
    by_cases hnext : n / 128 < 128
    · exact ⟨_, [], Leb128.encode_last hnext, fun _ => rfl⟩
    · refine ⟨_, _, Leb128.encode_more hnext, fun hone => ?_⟩
      have hsecond := congrArg BitVec.toNat hone
      rw [BitVec.toNat_ofNat] at hsecond
      have hlast : (0x01 : Byte).toNat = 1 := rfl
      omega

end Modern

end HandshakeVersion

section Modern
variable {ι ρ : Type} [BufRead ρ] [SetBlocking ρ] {R : ρ → Bytes → Prop}
open HandshakeVersion (Prompt)

theorem DecompressionStateWrappedReader.prompt (h : Prompt R) :
    Prompt (fun r : DecompressionStateWrappedReader ι ρ => R r.reader) := by
  intro r b c hr
  obtain ⟨r', htry, hr'⟩ := h hr
  refine ⟨⟨r.decompressionState, r'⟩, ?_, hr'⟩
  have hwrapped := DecompressionStateWrappedReader.tryReadByte r.decompressionState r.reader
  rw [htry] at hwrapped
  exact hwrapped

/-- A modern handshake of `n` bytes is read as one, and its handler gets what is behind its id. -/
structure ReadsModern (R : ρ → Bytes → Prop) (S : ProtocolState Handshake) (n : Nat)
    (payload rest : Bytes) (r : DecompressionStateWrappedReader ι ρ) : Prop where
  version : ∃ r', HandshakeVersion.fromReader r = (.ok (.standard n), r')
  handled : Isolated R .standard payload rest fun handlePacket => readHandshake S handlePacket r

/-- **A modern handshake whose length starts as a legacy one does is never read**: it is refused
as a malformed ping, whatever its length and its handler. -/
theorem modern_never_read (h : Delivers R Never) (hprompt : Prompt R) (S : ProtocolState Handshake)
    (r : DecompressionStateWrappedReader ι ρ) {tail payload rest : Bytes}
    (hlength : Leb128.encode (payload.length + 1) = 0xFE :: tail)
    (hr : R r.reader (Leb128.encode (payload.length + 1) ++ (0x00 :: payload ++ rest))) :
    ¬ ReadsModern R S (payload.length + 1) payload rest r ∧
      ∀ {α : Type} (handlePacket : Handshake → Program ReadError Nat α),
        (readHandshake S handlePacket r).1 = .error .malformedLegacyPing := by
  obtain ⟨second, more, rfl, hlast⟩ := HandshakeVersion.encode_legacy hlength
  rw [hlength] at hr
  obtain ⟨third, c, hbehind, hother⟩ : ∃ third c, more ++ (0x00 :: payload ++ rest) = third :: c ∧
      (second = 0x01 → third ≠ 0xFA) := by
    cases more with
    | nil => exact ⟨0x00, payload ++ rest, rfl, fun _ => by decide⟩
    | cons third more => exact ⟨third, _, rfl, fun hone => absurd (hlast hone) (List.cons_ne_nil _ _)⟩
  have hstream : R r.reader (0xFE :: second :: third :: c) := by
    rw [← hbehind]
    exact hr
  obtain ⟨r', hversion⟩ := HandshakeVersion.fromReader_malformed
    (DecompressionStateWrappedReader.delivers (ι := ι) h)
    (DecompressionStateWrappedReader.prompt hprompt) hstream hother
  refine ⟨fun hreads => ?_, fun {α} handlePacket => ?_⟩
  · obtain ⟨r'', hstandard⟩ := hreads.version
    rw [hversion] at hstandard
    cases hstandard
  · rw [readHandshake_apply, readOpening, bind_error hversion]
    rfl

theorem slice_prompt : Prompt Slice.Holds := by
  intro s b c hs
  obtain rfl : s = ⟨b :: c⟩ := congrArg Slice.mk hs
  exact ⟨⟨c⟩, rfl, rfl⟩

theorem encode_254 : Leb128.encode 254 = [0xFE, 0x01] := by
  rw [Leb128.encode_more (by decide), Leb128.encode_last (by decide)]
  rfl

/-- A handshake of 254 bytes is refused. -/
theorem modern_never_read_254 :
    let S : ProtocolState Handshake :=
      ⟨"serverbound_handshake", fun id => if id = 0 then some .standard else none⟩
    let payload : Bytes := List.replicate 253 0x00
    let r : DecompressionStateWrappedReader Unit Slice :=
      ⟨(), ⟨Leb128.encode 254 ++ (0x00 :: payload ++ [])⟩⟩
    (readHandshake S (fun _ => (pure () : Program ReadError Nat Unit)) r).1 =
      .error .malformedLegacyPing := by
  intro S payload r
  have hlength : 254 = payload.length + 1 := by rw [List.length_replicate]
  have hr : Slice.Holds r.reader (Leb128.encode 254 ++ (0x00 :: payload ++ [])) := rfl
  have hprefix := encode_254
  rw [hlength] at hr hprefix
  exact (modern_never_read Slice.delivers slice_prompt S r hprefix hr).2 _

/-- It is not read as a modern handshake. -/
theorem modern_mistaken :
    ¬ ReadsModern Slice.Holds
      ⟨"serverbound_handshake", fun id => if id = 0 then some .standard else none⟩
      254 (List.replicate 253 0x00) []
      (⟨(), ⟨Leb128.encode 254 ++ (0x00 :: List.replicate 253 0x00 ++ [])⟩⟩ :
        DecompressionStateWrappedReader Unit Slice) := by
  intro hreads
  obtain ⟨r', hstandard⟩ := hreads.version
  generalize List.replicate 253 (0x00 : Byte) = payload at hstandard
  rw [encode_254] at hstandard
  cases hstandard

end Modern

end Protocraft
