import Protocraft.Protocol.Handshake

/-! Where a packet that is not handled leaves the stream.

Behind a handler what is left of the packet is discarded. A packet that gets to no handler is
left where its last `VarInt` was refused: the next packet starts at the end of the frame only
if that `VarInt` was the last of it (`rejected_frame_consumed_iff`). -/
namespace Protocraft
open Protocraft.Stream

section Refused
variable {δ α : Type} {S : ProtocolState δ} {handlePacket : δ → Program ReadError Nat α}

/-- A `VarInt` at the front of the packet is refused, with `behind` after it: an id that the
state does not know, one that does not end, a negative size. -/
inductive Refused (S : ProtocolState δ) : Option Nat → Bytes → Bytes → Prop
  | unknown {c behind : Bytes} {n : Nat} (hid : Leb128.decode 5 c = some (n, behind))
      (hunknown : S.designatorFromId (BitVec.ofNat 32 n) = none) : Refused S none c behind
  | overSized {threshold : Option Nat} {c : Bytes} (hnone : Leb128.decode 5 c = none)
      (hlong : 5 ≤ c.length) : Refused S threshold c (c.drop 5)
  | negativeLength {threshold : Nat} {c behind : Bytes} {n : Nat}
      (hsize : Leb128.decode 5 c = some (n, behind)) (hnegative : (BitVec.ofNat 32 n).toInt < 0) :
      Refused S (some threshold) c behind
  | uncompressed {threshold : Nat} {c packet behind : Bytes} {n : Nat}
      (hzero : Leb128.decode 5 c = some (n, packet)) (hn : BitVec.ofNat 32 n = 0)
      (hpacket : Refused S none packet behind) : Refused S (some threshold) c behind

/-- What reading a packet comes to, when its limit is `k` bytes behind its end: it is handled,
it is refused, or the stream ends. -/
inductive Outcome (S : ProtocolState δ) (threshold : Option Nat) (c : Bytes) (k : Nat) :
    Except ReadError (Invocation α) × Bytes → Prop
  | handled (result : Except ReadError α) (hwithin : k = 0)
      (haccepted : ∀ behind, ¬ Refused S threshold c behind) :
        Outcome S threshold c k (.ok (.handled result), [])
  | refused (reply : Except ReadError (Invocation α)) {behind : Bytes}
      (hrefused : Refused S threshold c behind) :
      Outcome S threshold c k (reply, behind)
  | ended (e : IoError) : Outcome S threshold c k (.error (.streamError e), [])

theorem Refused.packet {threshold n : Nat} {c packet behind : Bytes}
    (hzero : Leb128.decode 5 c = some (n, packet)) (hn : BitVec.ofNat 32 n = 0)
    (h : Refused S (some threshold) c behind) : Refused S none packet behind := by
  cases h with
  | uncompressed hzero' _ hpacket =>
    rw [hzero] at hzero'
    cases hzero'
    exact hpacket
  | overSized hnone _ =>
    rw [hzero] at hnone
    cases hnone
  | negativeLength hsize hnegative =>
    rw [hzero] at hsize
    cases hsize
    rw [hn] at hnegative
    cases hnegative

theorem Refused.unique {threshold : Option Nat} {c behind behind' : Bytes}
    (h : Refused S threshold c behind) (h' : Refused S threshold c behind') : behind = behind' := by
  induction h generalizing behind' with
  | unknown hid hunknown =>
    cases h' with
    | unknown hid' _ =>
      rw [hid] at hid'
      cases hid'
      rfl
    | overSized hnone _ =>
      rw [hid] at hnone
      cases hnone
  | overSized hnone hlong =>
    cases h' with
    | overSized => rfl
    | unknown hid _ | negativeLength hid _ | uncompressed hid _ _ =>
      rw [hnone] at hid
      cases hid
  | negativeLength hsize hnegative =>
    cases h' with
    | negativeLength hsize' _ =>
      rw [hsize] at hsize'
      cases hsize'
      rfl
    | overSized hnone _ =>
      rw [hsize] at hnone
      cases hnone
    | uncompressed hzero hn _ =>
      rw [hsize] at hzero
      cases hzero
      rw [hn] at hnegative
      cases hnegative
  | uncompressed hzero hn _ ih => exact ih (h'.packet hzero hn)

/-- What refuses a packet does so with more behind it. -/
theorem Refused.append {c behind : Bytes} (h : Refused S none c behind) (tail : Bytes) :
    Refused S none (c ++ tail) (behind ++ tail) := by
  cases h with
  | unknown hid hunknown =>
    obtain ⟨used, rfl, hlen, hused⟩ := Leb128.decode_split hid
    rw [List.append_assoc]
    exact .unknown (hused 5 _ hlen) hunknown
  | overSized hnone hlong =>
    rw [← List.drop_append_of_le_length hlong]
    exact .overSized (Leb128.decode_append_none hnone hlong tail) (by rw [List.length_append]; omega)

/-- A packet is refused exactly at its end just when it is refused there with more behind it. -/
theorem Refused.ends_iff {c tail behind : Bytes} (h : Refused S none (c ++ tail) behind) :
    behind = tail ↔ Refused S none c [] := by
  constructor
  · intro heq
    subst heq
    generalize hwhole : c ++ behind = whole at h
    cases h with
    | unknown hid hunknown =>
      obtain ⟨used, rfl, hlen, hused⟩ := Leb128.decode_split hid
      obtain rfl := List.append_cancel_right hwhole
      have hid' := hused 5 [] hlen
      rw [List.append_nil] at hid'
      exact .unknown hid' hunknown
    | overSized hnone hlong =>
      have hfive : c.length = 5 := by
        have hlength := congrArg List.length hwhole
        rw [List.length_append, List.length_drop] at hlength
        omega
      have hall : c.drop 5 = [] := List.drop_eq_nil_of_le (by omega)
      rw [← hall]
      refine .overSized ?_ (by omega)
      cases hid : Leb128.decode 5 c with
      | none => rfl
      | some read =>
        obtain ⟨used, rfl, hlen, hused⟩ := Leb128.decode_split hid
        rw [← hwhole, List.append_assoc, hused 5 _ hlen] at hnone
        cases hnone
  · intro hends
    exact h.unique (hends.append tail)

theorem discardRemaining_eval_over (k : Nat) (c : Bytes) :
    discardRemaining.eval (fun c => c.length + k) c =
      if k = 0 then (.ok (), []) else (.error (.streamError eofDiscarding), []) := by
  cases k with
  | zero => exact discardRemaining_eval c
  | succ k =>
    have hover : ¬ c.length + (k + 1) ≤ c.length := by omega
    simp [discardRemaining, Program.eval, skipped, Except.mapError, hover]

theorem handleKnown_eval_over (designator : δ) (c : Bytes) (k : Nat) :
    (handleKnown handlePacket designator).eval (fun c => c.length + k) c =
      if k = 0 then (.ok (.handled ((handlePacket designator).eval List.length c).1), [])
      else (.error (.streamError eofDiscarding), []) := by
  cases k with
  | zero => exact handleKnown_eval designator c
  | succ k =>
    rw [handleKnown, Program.eval_bind_ok (Program.eval_attempt _ _ _),
      Program.eval_bind_error (discardRemaining_eval_over (k + 1) _)]
    rfl

/-- **Every packet is handled, refused, or cut off.** -/
theorem handleHelper_outcome (c : Bytes) (k : Nat) :
    Outcome S none c k ((handleHelper S handlePacket).eval (fun c => c.length + k) c) := by
  rw [handleHelper]
  cases hid : Leb128.decode 5 c with
  | none =>
    have heval := VarInt.fromReader_eval_none (fun c => c.length + k) hid
    by_cases hlong : 5 ≤ c.length
    · rw [if_pos hlong] at heval
      rw [Program.eval_bind_error heval]
      exact .refused _ (.overSized hid hlong)
    · rw [if_neg hlong] at heval
      rw [Program.eval_bind_error heval]
      exact .ended _
  | some read =>
    obtain ⟨n, payload⟩ := read
    rw [Program.eval_bind_ok (VarInt.fromReader_eval _ hid)]
    cases hdesignator : S.designatorFromId (BitVec.ofNat 32 n) with
    | none => exact .refused _ (.unknown hid hdesignator)
    | some designator =>
      have heval := @handleKnown_eval_over _ _ handlePacket designator payload k
      have haccepted : ∀ behind, ¬ Refused S none c behind := by
        intro behind h
        cases h with
        | unknown hid' hunknown =>
          rw [hid] at hid'
          cases hid'
          rw [hdesignator] at hunknown
          cases hunknown
        | overSized hnone _ =>
          rw [hid] at hnone
          cases hnone
      show Outcome S none c k
          ((handleKnown handlePacket designator).eval (fun c => c.length + k) payload)
      rw [heval]
      split
      next hwithin => exact .handled _ hwithin haccepted
      next => exact .ended _

/-- Of a packet behind a zero as of the packet. -/
theorem Outcome.uncompressed {threshold n : Nat} {c packet : Bytes}
    (hzero : Leb128.decode 5 c = some (n, packet))
    (hn : BitVec.ofNat 32 n = 0) {reply : Except ReadError (Invocation α) × Bytes}
    (h : Outcome S none packet 0 reply) : Outcome S (some threshold) c 0 reply := by
  cases h with
  | ended e => exact .ended e
  | refused reply hrefused => exact .refused reply (.uncompressed hzero hn hrefused)
  | handled result hwithin haccepted =>
    refine .handled result hwithin fun behind hrefused => ?_
    exact haccepted behind (hrefused.packet hzero hn)

end Refused

/-! ### On a reader -/

section Frames
variable {δ α ι ρ : Type} [Inflate ι] [BufRead ρ] {R : ρ → Bytes → Prop}
open DecompressionStateWrappedReader (withBound remaining)

/-- The frame's body is not compressed: it announces no positive size. -/
def NotCompressed (threshold : Option Nat) (body : Bytes) : Prop :=
  ∀ t n c, threshold = some t → Leb128.decode 5 body = some (n, c) → (BitVec.ofNat 32 n).toInt ≤ 0

theorem notCompressed_none (body : Bytes) : NotCompressed none body := by
  intro t n c h
  cases h

variable (S : ProtocolState δ) (handlePacket : δ → Program ReadError Nat α)

theorem handleHelper_taken (h : Delivers R Never) {t : Take ρ} {c rest : Bytes} (ht : Taken R rest t c) :
    ∃ reply t' left, (handleHelper S handlePacket).run Take.limit t = (reply, t') ∧
      Taken R rest t' left ∧
      Outcome S none c 0 (reply, left) := by
  have houtcome : Outcome S none c 0 ((handleHelper S handlePacket).eval List.length c) :=
    handleHelper_outcome c 0
  rcases heval : (handleHelper S handlePacket).eval List.length c with ⟨reply, left⟩
  rw [heval] at houtcome
  obtain ⟨t', hrun, ht'⟩ := run_taken h ht heval
  exact ⟨reply, t', left, hrun, ht', houtcome⟩

theorem readBody_outcome (h : Delivers R Never) {threshold : Option Nat} {t : Take ρ} {c rest : Bytes}
    (ht : Taken R rest t c) (hplain : NotCompressed threshold c) (s : ι) : ∃ reply t' left,
      readBody S handlePacket threshold (DecompressionStateWrappedReader.mk s t) = (reply, ⟨s, t'⟩) ∧
        Taken R rest t' left ∧ Outcome S threshold c 0 (reply, left) := by
  cases threshold with
  | none =>
    obtain ⟨reply, t', left, hrun, ht', houtcome⟩ := handleHelper_taken S handlePacket h ht
    exact ⟨reply, t', left, by rw [readBody_none, hrun], ht', houtcome⟩
  | some threshold =>
    cases hsize : Leb128.decode 5 c with
    | none =>
      have hfailed : ∀ {e left},
          (VarInt.fromReader : Program ReadError Unit VarInt).onBytes c = (.error e, left) →
          ∃ t', readBody S handlePacket (some threshold) (DecompressionStateWrappedReader.mk s t) =
            (.error e, ⟨s, t'⟩) ∧ Taken R rest t' left := by
        intro e left heval
        obtain ⟨t', hrun, ht'⟩ := Program.onReader_eq (h.toYields.take rest) ht heval
        refine ⟨t', bind_error ?_, ht'⟩
        rw [Program.onReader_passes (DecompressionStateWrappedReader.passes s), hrun]
      have heval := VarInt.fromReader_eval_none (fun _ => ()) hsize
      by_cases hlong : 5 ≤ c.length
      · rw [if_pos hlong] at heval
        obtain ⟨t', hread, ht'⟩ := hfailed heval
        exact ⟨_, t', _, hread, ht', .refused _ (.overSized hsize hlong)⟩
      · rw [if_neg hlong] at heval
        obtain ⟨t', hread, ht'⟩ := hfailed heval
        exact ⟨_, t', _, hread, ht', .ended _⟩
    | some read =>
      obtain ⟨n, packet⟩ := read
      by_cases hn : BitVec.ofNat 32 n = 0
      · obtain ⟨t₁, ht₁, hread⟩ := readBody_zero h ht hsize hn threshold
        obtain ⟨reply, t', left, hrun, ht', houtcome⟩ := handleHelper_taken S handlePacket h ht₁
        exact ⟨reply, t', left, by rw [hread, hrun], ht', houtcome.uncompressed hsize hn⟩
      · have hnegative : (BitVec.ofNat 32 n).toInt < 0 := by
          have hbound := hplain threshold n packet rfl hsize
          have hnonzero : (BitVec.ofNat 32 n).toInt ≠ 0 := fun hzero => hn (BitVec.eq_of_toInt_eq hzero)
          omega
        obtain ⟨t', ht', hread⟩ := readVarInt (h.toYields.take rest) ht hsize
        refine ⟨.error (.negativeLength "uncompressed_size"), t', packet, ?_, ht',
          .refused _ (.negativeLength hsize hnegative)⟩
        rw [readBody, bind_ok (hread s)]
        simp only [hnegative, if_true]
        rfl

end Frames

/-! ### What is left behind it -/

section Consumed
variable {δ α ι ρ : Type} {R : ρ → Bytes → Prop} {S : ProtocolState δ}

/-- Behind the outcome is the rest of the stream just when the frame was all that was taken. -/
theorem Outcome.consumed_iff (hdetermined : Determined R) {threshold : Option Nat}
    {body rest left : Bytes} {reply : Except ReadError (Invocation α)}
    (houtcome : Outcome S threshold body 0 (reply, left)) {r : ρ} (hr : R r (left ++ rest))
    {e : ReadError} (hreply : reply.bind Invocation.result = .error e)
    (hstream : ∀ err, e ≠ .streamError err) :
    R r rest ↔ Refused S threshold body [] ∨ ∀ behind, ¬ Refused S threshold body behind := by
  have hleft : R r rest ↔ left = [] := by
    constructor
    · intro hrest
      exact List.append_left_eq_self.mp (hdetermined hr hrest)
    · intro heq
      subst heq
      exact hr
  rw [hleft]
  cases houtcome with
  | handled result _ haccepted => exact ⟨fun _ => .inr haccepted, fun _ => rfl⟩
  | refused _ hrefused =>
    constructor
    · intro heq
      subst heq
      exact .inl hrefused
    · intro h
      obtain hends | haccepted := h
      · exact hrefused.unique hends
      · exact absurd hrefused (haccepted _)
  | ended err =>
    cases hreply
    exact absurd rfl (hstream err)

/-- The same within a bound that is `extra` bytes behind the frame's end. -/
theorem Outcome.overrun_consumed_iff (hdetermined : Determined R) {body rest left : Bytes} {extra : Nat}
    {reply : Except ReadError (Invocation α)}
    (houtcome : Outcome S none (body ++ rest.take extra) (extra - rest.length) (reply, left)) {r : ρ}
    (hr : R r (left ++ rest.drop extra)) {e : ReadError}
    (hreply : reply.bind Invocation.result = .error e) (hstream : ∀ err, e ≠ .streamError err) :
    R r rest ↔ Refused S none body [] ∨ extra = 0 ∧ ∀ behind, ¬ Refused S none body behind := by
  have hleft : R r rest ↔ left = rest.take extra := by
    constructor
    · intro hrest
      have hall := hdetermined hr hrest
      nth_rewrite 2 [← List.take_append_drop extra rest] at hall
      exact List.append_cancel_right hall
    · intro heq
      subst heq
      rwa [List.take_append_drop] at hr
  rw [hleft]
  cases houtcome with
  | handled result hwithin haccepted =>
    have hnone : ∀ behind, ¬ Refused S none body behind := fun behind h => haccepted _ (h.append _)
    constructor
    · intro htake
      have hlength := congrArg List.length htake
      rw [List.length_nil, List.length_take] at hlength
      exact .inr ⟨by omega, hnone⟩
    · intro h
      obtain hends | ⟨rfl, -⟩ := h
      · exact absurd hends (hnone [])
      · rfl
  | refused _ hrefused =>
    rw [hrefused.ends_iff]
    constructor
    · exact .inl
    · intro h
      obtain hends | ⟨rfl, haccepted⟩ := h
      · exact hends
      · rw [List.take_zero, List.append_nil] at hrefused
        exact absurd hrefused (haccepted _)
  | ended err =>
    cases hreply
    exact absurd rfl (hstream err)

variable [BufRead ρ]
open DecompressionStateWrappedReader (withBound remaining)

theorem readPacket_consumed_iff [Inflate ι] (h : Delivers R Never) (hdetermined : Determined R)
    {handlePacket : δ → Program ReadError Nat α} {threshold : Option Nat} {r : ρ} {c body rest : Bytes}
    (hr : R r c) (hlength : Leb128.decode 3 c = some (body.length, body ++ rest))
    (hplain : NotCompressed threshold body) (s : ι) {e : ReadError}
    (hfailed : (readPacket S handlePacket threshold (DecompressionStateWrappedReader.mk s r)).1 =
      .error e)
    (hstream : ∀ err, e ≠ .streamError err) :
    R (readPacket S handlePacket threshold (DecompressionStateWrappedReader.mk s r)).2.reader rest ↔
      Refused S threshold body [] ∨ ∀ behind, ¬ Refused S threshold body behind := by
  obtain ⟨r₁, ht, hread⟩ :=
    @readFrame_bounded δ α ρ _ R S handlePacket h r c body rest hr hlength threshold
  obtain ⟨reply, t, left, hbody, ht', houtcome⟩ := readBody_outcome S handlePacket h ht hplain s
  rw [readPacket_apply, hread, withBound, borrowing_apply, hbody] at hfailed ⊢
  exact @Outcome.consumed_iff _ _ _ R S hdetermined _ _ _ _ _ houtcome t.inner ht'.1 _ hfailed hstream

/-- A modern handshake, whose bound may be 128 bytes behind the frame's end. -/
theorem readHandshake_standard_consumed_iff [SetBlocking ρ] (h : Delivers R Never)
    (hdetermined : Determined R)
    {S : ProtocolState Handshake} {handlePacket : Handshake → Program ReadError Nat α}
    {r : DecompressionStateWrappedReader ι ρ} {first : Byte} {c body rest : Bytes}
    (hr : R r.reader (first :: c)) (hfirst : first ≠ 0xFE)
    (hlength : Leb128.decode 3 (first :: c) = some (body.length, body ++ rest)) {e : ReadError}
    (hfailed : (readHandshake S handlePacket r).1 = .error e) (hstream : ∀ err, e ≠ .streamError err) :
    R (readHandshake S handlePacket r).2.reader rest ↔ Refused S none body [] ∨
      (first.toNat < 128 ∨ (c.headD 0).toNat % 2 = 1) ∧ ∀ behind, ¬ Refused S none body behind := by
  obtain ⟨m, r', hversion, hr', hm⟩ := HandshakeVersion.fromReader_length
    (DecompressionStateWrappedReader.delivers h) hr hfirst hlength
  generalize hextra : (if first.toNat < 128 ∨ (c.headD 0).toNat % 2 = 1 then 0 else 128) = extra at hm
  have hagrees : first.toNat < 128 ∨ (c.headD 0).toNat % 2 = 1 ↔ extra = 0 := by
    rw [← hextra]
    split <;> simp_all
  have hbound : (body ++ rest.take extra).length + (extra - rest.length) = m := by
    rw [List.length_append, List.length_take]
    omega
  have hheld : R r'.reader (body ++ rest.take extra ++ rest.drop extra) := by
    rwa [List.append_assoc, List.take_append_drop]
  have hbehind : 0 < extra - rest.length → rest.drop extra = [] :=
    fun hk => List.drop_eq_nil_of_le (by omega)
  have houtcome :=
    @handleHelper_outcome _ _ S handlePacket (body ++ rest.take extra) (extra - rest.length)
  rcases heval : (handleHelper S handlePacket).eval (fun c => c.length + (extra - rest.length))
    (body ++ rest.take extra) with ⟨reply, left⟩
  rw [heval] at houtcome
  obtain ⟨hreply, hleft⟩ := withBound_eval h hheld hbehind heval
  rw [hbound] at hreply hleft
  rw [readHandshake_apply, readOpening_ok hversion] at hfailed ⊢
  have hfailed' : reply.bind Invocation.result = .error e := by rw [← hreply]; exact hfailed
  rw [hagrees]
  exact @Outcome.overrun_consumed_iff _ _ _ R S hdetermined _ _ _ _ _ houtcome _ hleft _ hfailed' hstream

/-- The frame is a legacy ping at hand whose data ends where the frame does. -/
def PingFrame [SetBlocking ρ] (r : DecompressionStateWrappedReader ι ρ) (c : Bytes) : Prop :=
  HandshakeVersion.AtHand r ∧ ∃ dataLength, dataLength.length = 2 ∧ i16FromBeBytes dataLength = 227 ∧
    HandshakeVersion.ping ++ dataLength <+: c

/-- A frame that starts as a legacy handshake does is longer than what is read of one, except of
a ping. -/
theorem legacy_frame_length {c body rest : Bytes}
    (hlength : Leb128.decode 3 (0xFE :: c) = some (body.length, body ++ rest)) :
    126 ≤ body.length ∧ body.length + rest.length ≤ c.length ∧
      (c.headD 0 = 1 → body.length + rest.length + 1 = c.length ∧ body.length = 254) := by
  have hmore : ¬ (0xFE : Byte).toNat < 128 := by decide
  have hlow : (0xFE : Byte).toNat % 128 = 126 := by decide
  rw [Leb128.decode, if_neg hmore, hlow] at hlength
  obtain ⟨⟨m, c'⟩, hrest, heq⟩ := Option.map_eq_some_iff.mp hlength
  obtain ⟨hm, rfl⟩ := Prod.mk.inj heq
  obtain ⟨used, hc, -, -⟩ := Leb128.decode_split hrest
  have htotal := congrArg List.length hc
  rw [List.length_append, List.length_append] at htotal
  refine ⟨by omega, by omega, fun hone => ?_⟩
  cases c with
  | nil => cases hrest
  | cons second tail =>
    obtain rfl : second = 1 := hone
    cases hrest
    have hlast : (1 : Byte).toNat = 1 := rfl
    rw [hlast] at hm
    rw [List.length_cons, List.length_append]
    exact ⟨rfl, by omega⟩

/-- A packet without an id takes what its bound says, if the stream holds that much. -/
theorem withBound_handleKnown (h : Delivers R Never) (handlePacket : δ → Program ReadError Nat α)
    (designator : δ) {r : DecompressionStateWrappedReader ι ρ} {c : Bytes} (hr : R r.reader c)
    (bound : Nat) :
    let reply := withBound bound ((handleKnown handlePacket designator).run remaining) r
    (∃ e, reply.1 = .error (.streamError e)) ∨ (bound ≤ c.length ∧ R reply.2.reader (c.drop bound)) := by
  have hbound : (c.take bound).length + (bound - c.length) = bound := by
    rw [List.length_take]
    omega
  have hheld : R r.reader (c.take bound ++ c.drop bound) := by rwa [List.take_append_drop]
  have hbehind : 0 < bound - c.length → c.drop bound = [] := fun hk => List.drop_eq_nil_of_le (by omega)
  have heval := @handleKnown_eval_over _ _ handlePacket designator (c.take bound) (bound - c.length)
  split at heval
  next hwithin =>
    obtain ⟨-, hleft⟩ := withBound_eval h hheld hbehind heval
    rw [hbound] at hleft
    exact .inr ⟨by omega, hleft⟩
  next =>
    obtain ⟨hreply, -⟩ := withBound_eval h hheld hbehind heval
    rw [hbound] at hreply
    exact .inl ⟨_, hreply⟩

/-- Behind the opening only a stream that fails makes a packet fail with the stream. -/
theorem not_stream {reply : Except ReadError (Invocation α)} {e : ReadError} {err : IoError}
    (hstream : ∀ err, e ≠ .streamError err) (hreply : reply = .error (.streamError err)) :
    reply.bind Invocation.result ≠ .error e := by
  intro hfailed
  subst hreply
  cases hfailed
  exact hstream err rfl

omit [BufRead ρ] in
/-- The stream is at the end of a ping's frame just when the ping's data is 227 bytes long. -/
theorem ping_consumed_iff (hdetermined : Determined R) {c body rest dataLength left : Bytes}
    {bound : Nat} {w : ρ} (hlength : Leb128.decode 3 (0xFE :: c) = some (body.length, body ++ rest))
    (hc : 0xFE :: c = HandshakeVersion.ping ++ dataLength ++ left) (hdata : dataLength.length = 2)
    (hwithin : bound ≤ left.length) (hw : R w (left.drop bound)) : R w rest ↔ bound = 227 := by
  obtain ⟨-, -, hping⟩ := legacy_frame_length hlength
  obtain ⟨htotal, hbody⟩ := hping (by rw [(List.cons.inj hc).2]; rfl)
  have hlengths := congrArg List.length hc
  have hpinged : HandshakeVersion.ping.length = 27 := rfl
  rw [List.length_cons, List.length_append, List.length_append, hpinged, hdata] at hlengths
  constructor
  · intro hrest
    have hbehind := congrArg List.length (hdetermined hw hrest)
    rw [List.length_drop] at hbehind
    omega
  · intro hbound
    subst hbound
    -- Both are what is behind as many bytes of the same stream.
    have hdropped : left.drop 227 <:+ 0xFE :: c := by
      rw [hc]
      exact (List.drop_suffix 227 left).trans (List.suffix_append _ _)
    have hsuffix : rest <:+ 0xFE :: c := by
      obtain ⟨used, hused, -⟩ := Leb128.decode_split hlength
      rw [hused]
      exact (List.suffix_append body rest).trans (List.suffix_append _ _)
    have hlength' : (left.drop 227).length = rest.length := by
      rw [List.length_drop]
      omega
    have hrest := (List.suffix_of_suffix_length_le hdropped hsuffix
        (Nat.le_of_eq hlength')).eq_of_length hlength'
    rwa [hrest] at hw

/-- A legacy handshake. -/
theorem readHandshake_legacy_consumed_iff [SetBlocking ρ] (h : Delivers R Never)
    (hdetermined : Determined R) (htries : HandshakeVersion.Tries R) {S : ProtocolState Handshake}
    {handlePacket : Handshake → Program ReadError Nat α} {r : DecompressionStateWrappedReader ι ρ}
    {c body rest : Bytes} (hr : R r.reader (0xFE :: c))
    (hlength : Leb128.decode 3 (0xFE :: c) = some (body.length, body ++ rest)) {e : ReadError}
    (hfailed : (readHandshake S handlePacket r).1 = .error e) (hstream : ∀ err, e ≠ .streamError err) :
    R (readHandshake S handlePacket r).2.reader rest ↔ PingFrame r (0xFE :: c) := by
  obtain ⟨hshort, htotal, -⟩ := legacy_frame_length hlength
  have hwrapped := DecompressionStateWrappedReader.delivers (ι := ι) h
  have htries' := @DecompressionStateWrappedReader.tries ι ρ _ R _ htries
  have houtcome := HandshakeVersion.fromReader_legacy hwrapped htries' hr
  have hread : PingFrame r (0xFE :: c) → (HandshakeVersion.fromReader r).1 = .ok (.legacy1_6 227) := by
    intro hframe
    obtain ⟨hhand, dataLength, hdata, hbound, left, hc⟩ := hframe
    rw [← hc] at hr
    rw [HandshakeVersion.fromReader_ping hwrapped htries' hr hhand hdata (by rw [hbound]; decide),
      hbound]
    rfl
  rcases hversion : HandshakeVersion.fromReader r with ⟨reply, r'⟩
  rw [hversion] at houtcome hread
  -- Where less than the frame was taken the stream is not at its end.
  have hearly : ∀ {used left : Bytes} {w : DecompressionStateWrappedReader ι ρ},
      0xFE :: c = used ++ left →
      used.length ≤ 29 → R w.reader left → reply ≠ .ok (.legacy1_6 227) →
      (R w.reader rest ↔ PingFrame r (0xFE :: c)) := by
    intro used left w hc hused hw hreply
    refine ⟨fun hrest => ?_, fun hframe => absurd (hread hframe) hreply⟩
    obtain rfl := hdetermined hw hrest
    have htaken := congrArg List.length hc
    rw [List.length_cons, List.length_append] at htaken
    omega
  cases houtcome with
  | ended err =>
    rw [readHandshake_apply, readOpening, bind_error hversion] at hfailed
    cases hfailed
    exact absurd rfl (hstream err)
  | early _ _ used hc hr' hused hreply =>
    rcases hreply with ⟨err, rfl⟩ | rfl | rfl
    · rw [readHandshake_apply, readOpening, bind_error hversion]
      exact hearly hc hused hr' (by simp)
    all_goals
      rw [readHandshake_apply, readOpening_ok hversion] at hfailed ⊢
    · obtain ⟨err, herr⟩ | ⟨-, hw⟩ := withBound_handleKnown h handlePacket .legacy1_5 hr' 0
      · exact absurd hfailed (not_stream hstream herr)
      · exact hearly hc hused hw (by simp)
    · obtain ⟨err, herr⟩ | ⟨-, hw⟩ := withBound_handleKnown h handlePacket .legacy1_3 hr' 0
      · exact absurd hfailed (not_stream hstream herr)
      · exact hearly hc hused hw (by simp)
  | @pinged _ dataLength left hc hr' hdata =>
    have hhand := HandshakeVersion.fromReader_atHand hwrapped htries' hr hversion
    generalize hbound : (i16FromBeBytes dataLength).toNat = bound at hversion hread
    have hframe : PingFrame r (0xFE :: c) ↔ bound = 227 := by
      constructor
      · intro hping
        cases hread hping
        rfl
      · intro hsame
        subst hsame
        exact ⟨hhand, dataLength, hdata, BitVec.eq_of_toNat_eq hbound, left, hc.symm⟩
    rw [readHandshake_apply, readOpening_ok hversion] at hfailed ⊢
    obtain ⟨err, herr⟩ | ⟨hwithin, hw⟩ := withBound_handleKnown h handlePacket .legacy1_6 hr' bound
    · exact absurd hfailed (not_stream hstream herr)
    · have hconsumed := @ping_consumed_iff ρ R hdetermined _ _ _ _ _ _ _ hlength hc hdata hwithin hw
      exact hconsumed.trans hframe.symm

/-- **A packet that is refused leaves the stream at the end of its frame just when the frame
ends with the `VarInt` that it is refused for**; what is handled is taken whole. A modern
handshake has the right end moreover only where its length is read right, and a frame that
starts as a legacy handshake does only if it is a ping whose data happens to end there. -/
theorem rejected_frame_consumed_iff (h : Delivers R Never) (hdetermined : Determined R)
    (r : DecompressionStateWrappedReader ι ρ) {first : Byte} {c body rest : Bytes}
    (hr : R r.reader (first :: c))
    (hlength : Leb128.decode 3 (first :: c) = some (body.length, body ++ rest)) {e : ReadError}
    (hstream : ∀ err, e ≠ .streamError err) :
    (∀ {δ α : Type} [Inflate ι] (S : ProtocolState δ) (handlePacket : δ → Program ReadError Nat α)
      (threshold : Option Nat), NotCompressed threshold body →
      (readPacket S handlePacket threshold r).1 = .error e →
      (R (readPacket S handlePacket threshold r).2.reader rest ↔
        Refused S threshold body [] ∨ ∀ behind, ¬ Refused S threshold body behind)) ∧
    (∀ {α : Type} [SetBlocking ρ] (S : ProtocolState Handshake)
      (handlePacket : Handshake → Program ReadError Nat α), HandshakeVersion.Tries R →
      (readHandshake S handlePacket r).1 = .error e →
      (R (readHandshake S handlePacket r).2.reader rest ↔
        if first = 0xFE then PingFrame r (first :: c)
        else Refused S none body [] ∨
          (first.toNat < 128 ∨ (c.headD 0).toNat % 2 = 1) ∧
            ∀ behind, ¬ Refused S none body behind)) := by
  constructor
  · intro δ α _ S handlePacket threshold hplain hfailed
    exact readPacket_consumed_iff h hdetermined hr hlength hplain r.decompressionState hfailed hstream
  · intro α _ S handlePacket htries hfailed
    split
    next hfirst =>
      subst hfirst
      exact readHandshake_legacy_consumed_iff h hdetermined htries hr hlength hfailed hstream
    next hfirst =>
      exact readHandshake_standard_consumed_iff h hdetermined hr hfirst hlength
        hfailed hstream

/-- A packet that is its id alone, and one with a payload. -/
theorem rejected_frame_consumed_id :
    let S : ProtocolState Handshake := ⟨"handshake", fun id => if id = 0 then some .standard else none⟩
    let start (bytes : Bytes) : DecompressionStateWrappedReader Stored.Inflater Slice :=
      ⟨⟨Stored.start, []⟩, ⟨bytes⟩⟩
    (readPacket S (fun _ => readU8) none (start [1, 5, 2, 0, 9])).2.reader.Holds [2, 0, 9] ∧
    (readHandshake S (fun _ => readU8) (start [1, 5, 2, 0, 9])).2.reader.Holds [2, 0, 9] ∧
    ¬ (readPacket S (fun _ => readU8) none (start [2, 5, 7, 2, 0, 9])).2.reader.Holds [2, 0, 9] := by
  intro S start
  have hunknown : ∀ behind, Refused S none (5 :: behind) behind := fun behind =>
    @Refused.unknown _ S _ behind 5 rfl (by decide)
  have hstream : ∀ err, ReadError.unknownPacket "handshake" 5 ≠ .streamError err := fun _ h => by cases h
  have hends := rejected_frame_consumed_iff Slice.delivers Slice.determined (start [1, 5, 2, 0, 9])
    (show Slice.Holds _ _ from rfl) (show _ = some ([5].length, [5] ++ [2, 0, 9]) by decide) hstream
  have hlonger := rejected_frame_consumed_iff Slice.delivers Slice.determined (start [2, 5, 7, 2, 0, 9])
    (show Slice.Holds _ _ from rfl) (show _ = some ([5, 7].length, [5, 7] ++ [2, 0, 9]) by decide)
      hstream
  refine ⟨?_, ?_, ?_⟩
  · exact (hends.1 S (fun _ => readU8) none (notCompressed_none _) (by decide +kernel)).mpr
      (.inl (hunknown []))
  · exact (hends.2 S (fun _ => readU8) HandshakeVersion.tries_slice (by decide +kernel)).mpr
      (.inl (hunknown []))
  · rw [hlonger.1 S (fun _ => readU8) none (notCompressed_none _) (by decide +kernel)]
    intro h
    obtain hrefused | haccepted := h
    · cases hrefused.unique (hunknown [7])
    · exact haccepted [7] (hunknown [7])

/-- The payload of a packet that is not known is taken for the next packet's length. -/
theorem rejected_frame_left :
    let S : ProtocolState Handshake := ⟨"handshake", fun id => if id = 0 then some .standard else none⟩
    let frame : Bytes := [2, 5, 7]
    let next : Bytes := [2, 0, 9]
    let start : DecompressionStateWrappedReader Stored.Inflater Slice :=
      ⟨⟨Stored.start, []⟩, ⟨frame ++ next⟩⟩
    Leb128.decode 3 (frame ++ next) = some (2, [5, 7] ++ next) ∧
    (readPacket S (fun _ => readU8) none start).1 = .error (.unknownPacket "handshake" 5) ∧
    (readPacket S (fun _ => readU8) none start).2.reader = ⟨7 :: next⟩ ∧
    (readHandshake S (fun _ => readU8) start).1 = .error (.unknownPacket "handshake" 5) ∧
    (readHandshake S (fun _ => readU8) start).2.reader = ⟨7 :: next⟩ ∧
    (readPackets S (fun _ => readU8) [none, none] start).1 =
      [.error (.unknownPacket "handshake" 5), .error (.unknownPacket "handshake" 2)] := by
  refine ⟨?_, ?_, ?_, ?_, ?_, ?_⟩ <;> decide +kernel

end Consumed

end Protocraft
