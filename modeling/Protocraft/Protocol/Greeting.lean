import Protocraft.Protocol.Confined
import Protocraft.Protocol.Opening

/-! What becomes of a modern handshake.

The first packet of a modern client is a frame like any other, but its length is read by a reader
of its own. That one is right about the lengths of a single byte and about those whose second byte is
odd, if they do not begin as a legacy ping (`Recognized`); these handshakes are understood and no
others (`handshake_understood_iff`). Of the others some are refused, and some are taken for 128 bytes
longer than they are: then the handler sees what lies behind, and that is lost. -/
namespace Protocraft
open Protocraft.Stream
open HandshakeVersion (Prompt)

/-- The length is read for what it is, by its first two bytes. -/
def Recognized (first second : Byte) : Prop :=
  first.toNat < 128 ∨ first ≠ 0xFE ∧ second.toNat % 2 = 1

instance (first second : Byte) : Decidable (Recognized first second) :=
  inferInstanceAs (Decidable (_ ∨ _))

theorem Addressed.append {δ : Type} {S : ProtocolState δ} {body payload : Bytes} {designator : δ}
    (h : Addressed S body designator payload) (more : Bytes) :
    Addressed S (body ++ more) designator (payload ++ more) := by
  obtain ⟨n, hid, hknown⟩ := h
  obtain ⟨used, rfl, hused, hagain⟩ := Leb128.decode_split hid
  refine ⟨n, ?_, hknown⟩
  rw [List.append_assoc]
  exact hagain 5 _ hused

/-- A body with the id of a handshake does not go on as a ping. -/
theorem Addressed.head {S : ProtocolState Handshake} {body payload : Bytes}
    (hid : ∀ {id}, S.designatorFromId id = some .standard → id = 0)
    (h : Addressed S body .standard payload) :
    ∃ b body', body = b :: body' ∧ b ≠ 0xFA := by
  obtain ⟨n, hn, hknown⟩ := h
  cases body with
  | nil => exact absurd rfl (Leb128.ne_nil_of_decode hn)
  | cons b body' =>
    refine ⟨b, body', rfl, fun hb => ?_⟩
    subst hb
    have hlowest := Leb128.decode_mod hn
    have hzero := congrArg BitVec.toNat (hid hknown)
    rw [BitVec.toNat_ofNat] at hzero
    have h250 : (0xFA : Byte).toNat = 250 := rfl
    have h0 : (0 : I32).toNat = 0 := rfl
    omega

/-- What stands behind a length that begins as a ping. -/
theorem length_marked {limit n : Nat} {b : Byte} {c body : Bytes}
    (h : Leb128.decode (limit + 1) (0xFE :: c) = some (n, b :: body)) (hb : b ≠ 0xFA) :
    ∃ second third c', c = second :: third :: c' ∧ (second = 0x01 → third ≠ 0xFA) := by
  have hmore : ¬ (0xFE : Byte).toNat < 128 := by decide
  rw [Leb128.decode, if_neg hmore] at h
  obtain ⟨⟨m, left⟩, hrest, heq⟩ := Option.map_eq_some_iff.mp h
  obtain ⟨-, rfl⟩ := Prod.mk.inj heq
  cases c with
  | nil => exact absurd rfl (Leb128.ne_nil_of_decode hrest)
  | cons second c =>
    cases limit with
    | zero => cases hrest
    | succ limit =>
      rw [Leb128.decode] at hrest
      split at hrest
      next hlast =>
        obtain ⟨-, rfl⟩ := Prod.mk.inj (Option.some.inj hrest)
        exact ⟨second, b, body, rfl, fun _ => hb⟩
      next hgoes =>
        obtain ⟨⟨m', left'⟩, hthird, -⟩ := Option.map_eq_some_iff.mp hrest
        obtain ⟨third, c', rfl⟩ := List.exists_cons_of_ne_nil (Leb128.ne_nil_of_decode hthird)
        refine ⟨second, third, c', rfl, fun hone => ?_⟩
        subst hone
        exact absurd (by decide) hgoes

section Greeting
variable {ι ρ : Type} [BufRead ρ] [SetBlocking ρ] {R : ρ → Bytes → Prop}
open DecompressionStateWrappedReader (withBound remaining)

/-- What becomes of a handshake whose length has these first two bytes, with `rest` behind it. -/
inductive Greeted (R : ρ → Bytes → Prop) (first second : Byte) (payload rest : Bytes)
    (read : ∀ {α : Type}, (Handshake → Program ReadError Nat α) →
      Except ReadError α × DecompressionStateWrappedReader ι ρ) : Prop
  | understood (hrecognized : Recognized first second) (h : Isolated R .standard payload rest read)
  | refused (hmarker : first = 0xFE)
      (h : ∀ {α : Type} (handlePacket : Handshake → Program ReadError Nat α),
      (read handlePacket).1 = .error .malformedLegacyPing)
  | overread (hunrecognized : ¬ Recognized first second) (hmore : 128 ≤ rest.length)
      (h : Isolated R .standard (payload ++ rest.take 128) (rest.drop 128) read)
  | starved (hunrecognized : ¬ Recognized first second) (hless : rest.length < 128)
      (h : ∀ {α : Type} (handlePacket : Handshake → Program ReadError Nat α),
        (read handlePacket).1 = .error (.streamError eofDiscarding))

/-- Its length is 128 bytes too great, and the stream ends before. -/
theorem readHandshake_starved (h : Delivers R Never) {S : ProtocolState Handshake}
    {body payload : Bytes} {k : Nat} {α : Type} (handlePacket : Handshake → Program ReadError Nat α)
    {r r' : DecompressionStateWrappedReader ι ρ}
    (hversion : HandshakeVersion.fromReader r = (.ok (.standard (body.length + k)), r'))
    (hk : 0 < k) (hr : R r'.reader body) (haddressed : Addressed S body .standard payload) :
    (readHandshake S handlePacket r).1 = .error (.streamError eofDiscarding) := by
  obtain ⟨n, hid, hknown⟩ := haddressed
  have heval := handleHelper_cut (j := body.length) handlePacket hid hknown hk
  rw [List.take_length, cutError, if_pos (Nat.sub_le _ _)] at heval
  have hstream : R r'.reader (body ++ []) := by rwa [List.append_nil]
  obtain ⟨hreply, -⟩ := withBound_eval h hstream (fun _ => rfl) heval
  rw [readHandshake_apply, readOpening_ok hversion]
  exact congrArg (Except.bind · Invocation.result) hreply

theorem readHandshake_greeted (h : Delivers R Never) (hprompt : Prompt R) {S : ProtocolState Handshake}
    (hid : ∀ {id}, S.designatorFromId id = some .standard → id = 0)
    {r : DecompressionStateWrappedReader ι ρ} {first : Byte} {c body payload rest : Bytes}
    (hr : R r.reader (first :: c))
    (hlength : Leb128.decode 3 (first :: c) = some (body.length, body ++ rest))
    (haddressed : Addressed S body .standard payload) :
    Greeted R first (c.headD 0) payload rest fun handlePacket => readHandshake S handlePacket r := by
  by_cases hmarker : first = 0xFE
  · subst hmarker
    obtain ⟨b, body', rfl, hb⟩ := haddressed.head hid
    obtain ⟨second, third, c', rfl, hother⟩ := length_marked hlength hb
    obtain ⟨r', hversion⟩ := HandshakeVersion.fromReader_malformed
      (DecompressionStateWrappedReader.delivers (ι := ι) h)
        (DecompressionStateWrappedReader.prompt hprompt) hr hother
    refine .refused rfl fun handlePacket => ?_
    rw [readHandshake_apply, readOpening, bind_error hversion]
    rfl
  · obtain ⟨m, r', hversion, hr', hm⟩ :=
      HandshakeVersion.fromReader_length (DecompressionStateWrappedReader.delivers (ι := ι) h) hr
        hmarker hlength
    by_cases hright : first.toNat < 128 ∨ (c.headD 0).toNat % 2 = 1
    · rw [if_pos hright, Nat.add_zero] at hm
      exact .understood (hright.imp_right fun hodd => ⟨hmarker, hodd⟩)
        (readHandshake_isolated h hversion hr' hm.symm haddressed)
    · rw [if_neg hright] at hm
      have hunrecognized : ¬ Recognized first (c.headD 0) := fun h => hright (h.imp_right And.right)
      by_cases hmore : 128 ≤ rest.length
      · refine .overread hunrecognized hmore
          (readHandshake_isolated h hversion ?_ ?_ (haddressed.append _))
        · rwa [List.append_assoc, List.take_append_drop]
        · rw [List.length_append, List.length_take, Nat.min_eq_left hmore]
          exact hm.symm
      · have hwanted : m = (body ++ rest).length + (128 - rest.length) := by
          rw [List.length_append]
          omega
        subst hwanted
        exact .starved hunrecognized (by omega) fun handlePacket =>
          readHandshake_starved h handlePacket hversion (by omega) hr' (haddressed.append rest)

omit [BufRead ρ] [SetBlocking ρ] in
theorem Isolated.reply {designator : Handshake} {payload rest : Bytes}
    {read : ∀ {α : Type}, (Handshake → Program ReadError Nat α) →
      Except ReadError α × DecompressionStateWrappedReader ι ρ}
    (h : Isolated R designator payload rest read)
    {α : Type} (handlePacket : Handshake → Program ReadError Nat α) :
    (read handlePacket).1 = ((handlePacket designator).eval List.length payload).1 := by
  obtain ⟨log, hobserved⟩ := Program.observed_eval List.length (handlePacket designator) payload
  obtain ⟨log', hreturned⟩ := h.returns handlePacket
  have hobserves := h.observes handlePacket
  rw [hreturned, watched, hobserved] at hobserves
  exact (Prod.mk.inj (Except.ok.inj hobserves)).2

omit [BufRead ρ] [SetBlocking ρ] in
/-- In the other cases it is not the payload that was handled, if anything was. -/
theorem Greeted.isolated_iff {first second : Byte} {payload rest : Bytes}
    {read : ∀ {α : Type}, (Handshake → Program ReadError Nat α) →
      Except ReadError α × DecompressionStateWrappedReader ι ρ}
    (h : Greeted R first second payload rest read) :
    Isolated R .standard payload rest read ↔ Recognized first second := by
  have hnever : ∀ {e : ReadError}, (∀ {α : Type} (handlePacket : Handshake → Program ReadError Nat α),
      (read handlePacket).1 = .error e) → ¬ Isolated R .standard payload rest read := by
    intro e hfails hisolated
    cases (hfails fun _ => pure ()).symm.trans (hisolated.reply fun _ => pure ())
  cases h with
  | understood hrecognized h => exact iff_of_true h hrecognized
  | refused hmarker h =>
    refine iff_of_false (hnever h) ?_
    subst hmarker
    simp [Recognized]
  | overread hunrecognized hmore h =>
    refine iff_of_false (fun hisolated => ?_) hunrecognized
    have hcounted :=
      (h.reply fun _ => .remaining pure).symm.trans (hisolated.reply fun _ => .remaining pure)
    have hlength : (payload ++ rest.take 128).length = payload.length := Except.ok.inj hcounted
    rw [List.length_append, List.length_take, Nat.min_eq_left hmore] at hlength
    omega
  | starved hunrecognized hless h => exact iff_of_false (hnever h) hunrecognized

/-- **A modern handshake is understood just when its length is recognized.** Otherwise it is refused
as a ping, or handled together with the 128 bytes behind it, which are lost, or cut off where these
have not come. -/
theorem handshake_understood_iff (h : Delivers R Never) (hprompt : Prompt R)
    {S : ProtocolState Handshake} (hid : ∀ {id}, S.designatorFromId id = some .standard → id = 0)
    {r : DecompressionStateWrappedReader ι ρ} {first : Byte} {c body payload rest : Bytes}
    (hr : R r.reader (first :: c))
    (hlength : Leb128.decode 3 (first :: c) = some (body.length, body ++ rest))
    (haddressed : Addressed S body .standard payload) :
    Greeted R first (c.headD 0) payload rest (fun handlePacket => readHandshake S handlePacket r) ∧
      (Isolated R .standard payload rest (fun handlePacket => readHandshake S handlePacket r) ↔
        Recognized first (c.headD 0)) := by
  have hgreeted := readHandshake_greeted h hprompt hid hr hlength haddressed
  exact ⟨hgreeted, hgreeted.isolated_iff⟩

/-- A handshake of 256 bytes, behind which the next packet has come in part. -/
theorem handshake_understood_iff_starved :
    let S : ProtocolState Handshake :=
      ⟨"serverbound_handshake", fun id => if id = 0 then some .standard else none⟩
    let payload : Bytes := List.replicate 255 0x07
    let r : DecompressionStateWrappedReader Unit Slice :=
      ⟨(), ⟨0x80 :: 0x02 :: 0x00 :: (payload ++ [1, 0])⟩⟩
    ¬ Isolated Slice.Holds .standard payload [1, 0]
      (fun handlePacket => readHandshake S handlePacket r) := by
  intro S payload r
  have hid : ∀ {id}, S.designatorFromId id = some .standard → id = 0 := by
    intro id hid
    by_contra hother
    rw [show S.designatorFromId id = none from if_neg hother] at hid
    cases hid
  have hlength : Leb128.decode 3 (0x80 :: 0x02 :: 0x00 :: (payload ++ [1, 0])) =
      some ((0x00 :: payload).length, 0x00 :: payload ++ [1, 0]) := by
    rw [List.length_cons, List.length_replicate]
    rfl
  have haddressed : Addressed S (0x00 :: payload) .standard payload := ⟨0, rfl, rfl⟩
  have hiff := (handshake_understood_iff Slice.delivers slice_prompt hid (r := r) rfl hlength
    haddressed).2
  rw [hiff]
  show ¬ Recognized 0x80 0x02
  decide

end Greeting

end Protocraft
