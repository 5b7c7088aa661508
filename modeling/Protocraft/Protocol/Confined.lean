import Protocraft.Defaults.Reader
import Protocraft.Protocol.Framing
import Protocraft.Protocol.Rejection
import Protocraft.Stream.Confined

/-! A packet stays in its frame.

Nothing that happens while a packet is read takes a byte from behind its frame: not a handler that
reads on, not a decompressor that asks for more than it was given, not a transport that fails
(`readPacket_confined`). A frame that the stream ends within is never taken for a packet
(`cut_frame_fails`). -/
namespace Protocraft
open Protocraft.Stream

theorem DefaultReader.tracks {ρ : Type} [Read ρ] {R : ρ → Bytes → Prop} (h : Tracks R) :
    Tracks (Holding R) where
  ok := by
    intro d c n bs d' hd hread
    cases d with
    | standard r =>
      change ((Read.read n r).1, standard (Read.read n r).2) = _ at hread
      obtain ⟨hreply, rfl⟩ := Prod.mk.inj hread
      exact h.ok hd (replied hreply)
    | decrypt r =>
      change ((Read.read n r).1, decrypt (Read.read n r).2) = _ at hread
      obtain ⟨hreply, rfl⟩ := Prod.mk.inj hread
      exact (DecryptionReader.tracks h).ok hd (replied hreply)
  error := by
    intro d c n e d' hd hread
    cases d with
    | standard r =>
      change ((Read.read n r).1, standard (Read.read n r).2) = _ at hread
      obtain ⟨hreply, rfl⟩ := Prod.mk.inj hread
      exact h.error hd (replied hreply)
    | decrypt r =>
      change ((Read.read n r).1, decrypt (Read.read n r).2) = _ at hread
      obtain ⟨hreply, rfl⟩ := Prod.mk.inj hread
      exact (DecryptionReader.tracks h).error hd (replied hreply)

section Confined
variable {δ α ι ρ : Type} [BufRead ρ] {R : ρ → Bytes → Prop}
open DecompressionStateWrappedReader (withBound withDecompression remaining)

/-- What keeps all that a bounded reader keeps does not get behind the bound. -/
theorem withBound_confined (h : Advances R) {ε β : Type} {n : Nat}
    {m : Action ε (DecompressionStateWrappedReader ι (Take ρ)) β}
    (hm : ∀ {I : Take ρ → Prop}, Kept I → Keeps (fun r => I r.reader) m)
    {r : DecompressionStateWrappedReader ι ρ} {c : Bytes} (hr : R r.reader c) :
    ∃ left, left <:+ c.take n ∧ R (withBound n m r).2.reader (left ++ c.drop n) := by
  have hstart : Confined R (c.take n) (c.drop n) (⟨r.reader, n⟩ : Take ρ) := by
    refine ⟨c.take n, List.suffix_refl _, by rwa [List.take_append_drop], ?_⟩
    by_cases hn : n ≤ c.length
    · refine .inl ?_
      rw [List.length_take, Nat.min_eq_left hn]
    · exact .inr (List.drop_eq_nil_of_le (by omega))
  obtain ⟨left, hleft, hend, -⟩ := hm (h.confined (c.take n) (c.drop n))
    (⟨r.decompressionState, ⟨r.reader, n⟩⟩ : DecompressionStateWrappedReader ι (Take ρ)) hstart
  exact ⟨left, hleft, hend⟩

theorem readBody_keeps [Inflate ι] {I : Take ρ → Prop} (h : Kept I) (S : ProtocolState δ)
    (handlePacket : δ → Program ReadError Nat α) (threshold : Option Nat) :
    Keeps (fun r : DecompressionStateWrappedReader ι (Take ρ) => I r.reader)
      (readBody S handlePacket threshold) := by
  have hread := DecompressionStateWrappedReader.read_keeps (ι := ι) h.read
  cases threshold with
  | none => exact Program.run_keeps hread _ _
  | some threshold =>
    refine (Program.run_keeps hread _ _).bind fun dataLength => ?_
    split
    · exact keeps_throw _
    · split
      · exact Program.run_keeps hread _ _
      · have hinner := Take.read_keeps (DecompressionReader.read_keeps (ι := ι) h)
        have htaking : Keeps (fun d : DecompressionReader ι (Take ρ) => I d.reader)
            (taking dataLength.value.toNat ((handleHelper S handlePacket).run Take.limit)) :=
          (Program.run_keeps hinner _ _).borrowing (fun _ => id) fun _ _ => id
        exact htaking.borrowing (fun _ => id) fun _ _ => id

omit [BufRead ρ] in
theorem capped_start {r : ρ} {c : Bytes} (hr : R r c) (n : Nat) :
    Capped R (c.drop n) (⟨r, n⟩ : Take ρ) (c.take n) := by
  refine ⟨by rwa [List.take_append_drop], List.length_take_le .., fun hlt => ?_⟩
  rw [List.length_take] at hlt
  dsimp only at hlt
  exact List.drop_eq_nil_of_le (by omega)

/-- A length that has been read is the one that is there. -/
theorem readLength_tracked (h : Advances R) {r r' : DecompressionStateWrappedReader ι ρ} {c : Bytes}
    {v : VarInt} (hr : R r.reader c)
    (hok : withBound 3 VarInt.fromReader.onReader r = ((.ok v : Except ReadError VarInt), r')) :
    ∃ n rest, Leb128.decode 3 c = some (n, rest) ∧ v = ⟨BitVec.ofNat 32 n⟩ ∧ R r'.reader rest := by
  obtain ⟨r₁, hrun, rfl⟩ := ok_of_borrowing hok
  rw [Program.onReader_passes (DecompressionStateWrappedReader.passes r.decompressionState)] at hrun
  obtain ⟨hreply, rfl⟩ := Prod.mk.inj hrun
  have hcapped := capped_start hr 3
  have hunit : ∀ {t : Take ρ} {c₁ : Bytes}, Capped R (c.drop 3) t c₁ →
      (fun _ => ()) t = (fun _ : Bytes => ()) c₁ :=
    fun _ => rfl
  obtain ⟨c', heval, hr'⟩ := VarInt.fromReader_strict.run_tracked (h.toTracks.capped (c.drop 3))
    hunit hcapped (replied hreply)
  cases hdecode : Leb128.decode 5 (c.take 3) with
  | none =>
    rw [VarInt.fromReader_eval_none _ hdecode] at heval
    split at heval <;> cases heval
  | some found =>
    obtain ⟨n, left⟩ := found
    rw [VarInt.fromReader_eval _ hdecode] at heval
    cases heval
    obtain ⟨used, hsplit, -, hagain⟩ := Leb128.decode_split hdecode
    have hused : used.length ≤ 3 := by
      have hlength := congrArg List.length hsplit
      rw [List.length_take, List.length_append] at hlength
      omega
    refine ⟨n, c' ++ c.drop 3, ?_, rfl, hr'.1⟩
    rw [← hagain 3 (c' ++ c.drop 3) hused, ← List.append_assoc, ← hsplit, List.take_append_drop]

/-- And where reading it failed all that was taken goes on. -/
theorem VarInt.readSegments_tracked {σ β : Type} [Read σ] {Q : σ → Bytes → Prop} (h : Tracks Q)
    {rem : σ → β} {tooLong e : ReadError} {offsets : List Nat} {value : BitVec 32} {t t' : σ}
    {c : Bytes} (ht : Q t c)
    (hrun : (readSegments tooLong offsets value).run rem t = (.error e, t')) :
    ∃ used left, c = used ++ left ∧ (∀ b ∈ used, Leb128.Continues b) ∧ Q t' left := by
  induction offsets generalizing value t c with
  | nil =>
    cases hrun
    exact ⟨[], c, rfl, by simp, ht⟩
  | cons offset offsets ih =>
    obtain ⟨e', t₁, hbyte, ht₁⟩ | ⟨b, c', t₁, rfl, hbyte, ht₁⟩ := h.readByte ht
    · have hread : (readU8 : Program ReadError β Byte).run rem t = (.error (.streamError e'), t₁) := by
        simp only [readU8, readBytes, bind, Program.bind, Program.run, hbyte]
        rfl
      rw [readSegments, Program.run_bind_error hread] at hrun
      cases hrun
      exact ⟨[], c, rfl, by simp, ht₁⟩
    · have hread : (readU8 : Program ReadError β Byte).run rem t = (.ok b, t₁) := by
        simp only [readU8, readBytes, bind, Program.bind, Program.run, hbyte]
        rfl
      rw [readSegments, Program.run_bind_ok hread] at hrun
      simp only [continues_iff] at hrun
      split at hrun
      next => cases hrun
      next hb =>
        obtain ⟨used, left, rfl, hused, ht'⟩ := ih ht₁ hrun
        refine ⟨b :: used, left, rfl, ?_, ht'⟩
        intro x hx
        rcases List.mem_cons.mp hx with rfl | hx
        · exact Nat.not_lt.mp hb
        · exact hused x hx

theorem VarInt.fromReader_failed {σ β : Type} [Read σ] {Q : σ → Bytes → Prop} (h : Tracks Q)
    {rem : σ → β} {e : ReadError} {t t' : σ} {c : Bytes} (ht : Q t c)
    (hrun : (fromReader : Program ReadError β VarInt).run rem t = (.error e, t')) :
    ∃ used left, c = used ++ left ∧ (∀ b ∈ used, Leb128.Continues b) ∧ Q t' left := by
  rw [fromReader] at hrun
  rcases hsegments : (readSegments (.overSized "varint" 5 6) (List.range' 0 5 7) 0 :
    Program ReadError β (BitVec 32)).run rem t with ⟨e' | value, t₁⟩
  · rw [Program.run_bind_error hsegments] at hrun
    cases hrun
    exact readSegments_tracked h ht hsegments
  · rw [Program.run_bind_ok hsegments] at hrun
    cases hrun

theorem readLength_failed (h : Advances R) {r r' : DecompressionStateWrappedReader ι ρ} {c : Bytes}
    {e : ReadError} (hr : R r.reader c)
    (hfailed : withBound 3 VarInt.fromReader.onReader r = ((.error e : Except ReadError VarInt), r')) :
    ∃ used left, c = used ++ left ∧ used.length ≤ 3 ∧ (∀ b ∈ used, Leb128.Continues b) ∧
      R r'.reader left := by
  rcases hrun : (VarInt.fromReader.onReader (⟨r.reader, 3⟩ : Take ρ) : Except ReadError VarInt × Take ρ)
    with ⟨reply, t⟩
  rw [withBound, borrowing_apply,
    Program.onReader_passes (DecompressionStateWrappedReader.passes _), hrun] at hfailed
  cases hfailed
  obtain ⟨used, left, hsplit, hused, ht⟩ :=
    VarInt.fromReader_failed (h.toTracks.capped (c.drop 3)) (capped_start hr 3) hrun
  refine ⟨used, left ++ c.drop 3, ?_, ?_, hused, ht.1⟩
  · rw [← List.append_assoc, ← hsplit, List.take_append_drop]
  · have hlength := congrArg List.length hsplit
    rw [List.length_take, List.length_append] at hlength
    omega

/-- **Reading a packet never gets behind its frame.** Whatever the handler does, whatever the
decompressor does with the bytes it is given and whenever the transport fails, the bytes behind the
frame are still to be read; where there is no length, at most three bytes are gone. -/
theorem readPacket_confined [Inflate ι] (h : Advances R) (S : ProtocolState δ)
    (handlePacket : δ → Program ReadError Nat α) (threshold : Option Nat)
    {r : DecompressionStateWrappedReader ι ρ} {c : Bytes} (hr : R r.reader c) :
    ∃ left, R (readPacket S handlePacket threshold r).2.reader left ∧ left <:+ c ∧
      (∀ n rest, Leb128.decode 3 c = some (n, rest) → rest.drop n <:+ left) ∧
      (Leb128.decode 3 c = none → c.length ≤ left.length + 3) := by
  rw [readPacket_apply, readFrame, bind_apply]
  rcases hlength : withBound 3 VarInt.fromReader.onReader r with ⟨e | v, r₁⟩
  · obtain ⟨used, left, rfl, hshort, hused, hend⟩ := readLength_failed h hr hlength
    refine ⟨left, hend, List.suffix_append used left, ?_, ?_⟩
    · intro n rest hdecode
      exact (List.drop_suffix n rest).trans (Leb128.decode_behind hused hdecode)
    · intro
      rw [List.length_append]
      omega
  · obtain ⟨n, rest, hdecode, rfl, hr₁⟩ := readLength_tracked h hr hlength
    have hlt := Leb128.decode_lt hdecode
    have hsmall : (BitVec.ofNat 32 n).toNat = n := by
      rw [BitVec.toNat_ofNat]
      omega
    have hwithin : ∃ left, left <:+ rest.take n ∧
        R ((if (BitVec.ofNat 32 n).toInt < 0 then throw (.negativeLength "packet_length")
          else withBound (BitVec.ofNat 32 n).toNat (readBody S handlePacket threshold) :
          Action ReadError (DecompressionStateWrappedReader ι ρ) (Invocation α)) r₁).2.reader
          (left ++ rest.drop n) := by
      split
      · exact ⟨rest.take n, List.suffix_refl _, by rwa [List.take_append_drop]⟩
      · rw [hsmall]
        exact withBound_confined h (fun hI => readBody_keeps (ι := ι) hI S handlePacket threshold) hr₁
    obtain ⟨left, ⟨before, hbefore⟩, hend⟩ := hwithin
    obtain ⟨used, rfl, -, -⟩ := Leb128.decode_split hdecode
    refine ⟨left ++ rest.drop n, hend, ⟨used ++ before, ?_⟩, ?_, ?_⟩
    · rw [List.append_assoc, ← List.append_assoc before, hbefore, List.take_append_drop]
    · intro n' rest' hdecode'
      cases hdecode.symm.trans hdecode'
      exact List.suffix_append left (rest.drop n)
    · intro hnone
      rw [hdecode] at hnone
      cases hnone

end Confined

/-- A compressed packet that does not decompress, on an encrypted stream that brings the next one
with it. -/
theorem readPacket_confined_malformed :
    let S : ProtocolState Unit := ⟨"play", fun id => if id = 0 then some () else none⟩
    let cipher : Cfb8 := ⟨fun _ _ => 1, fun _ => 0⟩
    let stream : Bytes := [4, 5, 0x78, 1, 99, 1, 7]
    let encrypted := Cfb8.encryptor.output cipher stream
    let transport : Segments := ⟨[encrypted.take 3, encrypted.drop 3], by decide⟩
    let reader : BufReader (DefaultReader Segments) := ⟨.decrypt ⟨cipher, transport⟩, [], 64⟩
    let r := DecompressionStateWrappedReader.mk (⟨Stored.start, []⟩ : Stored.Inflater) reader
    ∃ left,
      Buffered (DefaultReader.Holding Segments.Holds)
      (readPacket S (fun _ => readU8) (some 0) r).2.reader left ∧
      left <:+ stream ∧ [1, 7] <:+ left := by
  intro S cipher stream encrypted transport reader r
  have hheld : Buffered (DefaultReader.Holding Segments.Holds) reader stream :=
    ⟨by decide, stream, ⟨encrypted, rfl, by decide⟩, rfl⟩
  obtain ⟨left, hleft, hsuffix, hbehind, -⟩ := readPacket_confined (r := r)
    (DefaultReader.tracks Segments.tracks).buffered S (fun _ => readU8) (some 0) hheld
  exact ⟨left, hleft, hsuffix, hbehind 4 [5, 0x78, 1, 99, 1, 7] rfl⟩

/-! ### Frames that are cut short -/

section Cut
variable {δ α ι ρ : Type} [BufRead ρ] {R : ρ → Bytes → Prop} {S : ProtocolState δ}
  {handlePacket : δ → Program ReadError Nat α}
open DecompressionStateWrappedReader (withBound remaining)

/-- How reading fails where only `k` bytes are there: the first `wanted` are asked for, the others
drained. -/
def cutError (wanted k : Nat) : IoError := if wanted ≤ k then eofDiscarding else failedToFill

omit [BufRead ρ] in
theorem varInt_cut {β : Type} (rem : Bytes → β) {c rest : Bytes} {n j : Nat}
    (h : Leb128.decode 5 c = some (n, rest)) (hj : j + rest.length < c.length) :
    (VarInt.fromReader : Program ReadError β VarInt).eval rem (c.take j) =
      (.error (.streamError failedToFill), []) := by
  have hshort : ¬ 5 ≤ (c.take j).length := by
    obtain ⟨used, rfl, hused, -⟩ := Leb128.decode_split h
    rw [List.length_append] at hj
    rw [List.length_take]
    omega
  rw [VarInt.fromReader_eval_none rem (Leb128.decode_cut h hj), if_neg hshort]

omit [BufRead ρ] in
/-- The helper asks for the id, and then for all that the bound tells of. -/
theorem handleHelper_cut (handlePacket : δ → Program ReadError Nat α) {content payload : Bytes}
    {n j k : Nat} {designator : δ} (hid : Leb128.decode 5 content = some (n, payload))
    (hknown : S.designatorFromId (BitVec.ofNat 32 n) = some designator) (hk : 0 < k) :
    (handleHelper S handlePacket).eval (fun c => c.length + k) (content.take j) =
      (.error (.streamError (cutError (content.length - payload.length) j)), []) := by
  rw [handleHelper, cutError]
  split
  next hread =>
    obtain ⟨used, rfl, hused, hagain⟩ := Leb128.decode_split hid
    rw [List.length_append, Nat.add_sub_cancel_right] at hread
    rw [List.take_append, List.take_of_length_le hread,
      Program.eval_bind_ok (VarInt.fromReader_eval _ (hagain 5 _ hused))]
    simp only [hknown]
    have hdrained :=
      @handleKnown_eval_over _ _ handlePacket designator (payload.take (j - used.length)) k
    rw [if_neg (by omega)] at hdrained
    exact hdrained
  next hread => rw [Program.eval_bind_error (varInt_cut _ hid (by omega))]

theorem cutError_behind {m k : Nat} (h : m ≤ k) (wanted : Nat) :
    cutError (m + wanted) k = cutError wanted (k - m) := by
  have hshift : m + wanted ≤ k ↔ wanted ≤ k - m := by omega
  simp only [cutError, hshift]

/-- Behind the length everything is read within it. -/
theorem readFrame_within (handlePacket : δ → Program ReadError Nat α) (h : Delivers R Never) {r : ρ}
    {c rest : Bytes} {n : Nat} (hr : R r c) (hlength : Leb128.decode 3 c = some (n, rest))
    (threshold : Option Nat) :
    ∃ r', R r' rest ∧ ∀ {ι : Type} [Inflate ι] (s : ι),
      readFrame S handlePacket threshold (DecompressionStateWrappedReader.mk s r) =
        withBound n (readBody S handlePacket threshold) ⟨s, r'⟩ := by
  obtain ⟨r', hr', hread⟩ := readLength h hr hlength
  have hlt := Leb128.decode_lt hlength
  have hsmall : (BitVec.ofNat 32 n).toNat = n := by
    rw [BitVec.toNat_ofNat]
    omega
  refine ⟨r', hr', fun {ι} _ s => ?_⟩
  rw [readFrame, bind_ok (hread s)]
  simp only [hsmall]
  rw [if_neg]
  rw [BitVec.toInt_eq_toNat_of_lt (by rw [hsmall]; omega)]
  omega

variable [Inflate ι]

theorem readFrame_cut (h : Delivers R Never) {c rest : Bytes} {n k : Nat}
    (hlength : Leb128.decode 3 c = some (n, rest)) (hk : k + rest.length < c.length) {r : ρ}
    (hr : R r (c.take k)) (threshold : Option Nat) (s : ι) :
    (readFrame S handlePacket threshold (DecompressionStateWrappedReader.mk s r)).1 =
      .error (.streamError failedToFill) := by
  have hlead : (c.take k).length < 3 := by
    obtain ⟨used, rfl, hused, -⟩ := Leb128.decode_split hlength
    rw [List.length_append] at hk
    rw [List.length_take]
    omega
  have hcapped : Capped R [] (⟨r, 3⟩ : Take ρ) (c.take k) :=
    ⟨by rwa [List.append_nil], Nat.le_of_lt hlead, fun _ => rfl⟩
  have heval : (VarInt.fromReader : Program ReadError Unit VarInt).onBytes (c.take k) =
      (.error (.streamError failedToFill), []) := by
    rw [Program.onBytes, VarInt.fromReader_eval_none _ (Leb128.decode_cut hlength hk), if_neg (by omega)]
  obtain ⟨t, hrun, -⟩ := Program.onReader_eq (h.take []) hcapped heval
  have hread : withBound 3 VarInt.fromReader.onReader (DecompressionStateWrappedReader.mk s r) =
      ((.error (.streamError failedToFill) : Except ReadError VarInt), ⟨s, t.inner⟩) := by
    rw [withBound, borrowing_apply,
      Program.onReader_passes (DecompressionStateWrappedReader.passes s), hrun]
  rw [readFrame, bind_error hread]

omit [BufRead ρ] [Inflate ι] in
theorem Framed.uncompressed {Complete : Bytes → Bytes → Prop} {threshold : Option Nat}
    {content frame : Bytes} (h : Framed Complete threshold content frame)
    (hplain : ∀ least, threshold = some least → content.length < least) :
    ∃ body, frame = Leb128.encode body.length ++ body ∧ body.length ≤ maxPacketSize ∧
      Uncompressed threshold body content := by
  cases h with
  | plain hmax => exact ⟨content, rfl, hmax, rfl⟩
  | below hbelow hmax =>
    have hlength : content.length + 1 = (Leb128.encode 0 ++ content).length := by
      rw [List.length_append, Leb128.encode_last (by decide), List.length_singleton, Nat.add_comm]
    rw [hlength] at hmax ⊢
    have hzero : (Leb128.encode 0).length ≤ 5 := Leb128.encode_length_le 4 0 (by decide)
    exact ⟨_, rfl, hmax, 0, Leb128.decode_encode 5 0 content hzero, rfl⟩
  | compressed habove =>
    have hbelow := hplain _ rfl
    omega

/-- A body that is cut, in a bound that is not. -/
theorem readBody_cut (handlePacket : δ → Program ReadError Nat α) (h : Delivers R Never)
    {threshold : Option Nat} {content body payload : Bytes} {n j : Nat} {designator : δ}
    (hbody : Uncompressed threshold body content) (hid : Leb128.decode 5 content = some (n, payload))
    (hknown : S.designatorFromId (BitVec.ofNat 32 n) = some designator) (hj : j < body.length) {r : ρ}
    (hr : R r (body.take j)) (s : ι) :
    (withBound body.length (readBody S handlePacket threshold)
      (DecompressionStateWrappedReader.mk s r)).1 =
      .error (.streamError (cutError (body.length - payload.length) j)) := by
  have hover : Overrun R [] (body.length - j) (⟨r, body.length⟩ : Take ρ) (body.take j) := by
    refine ⟨by rwa [List.append_nil], ?_, fun _ => rfl⟩
    rw [List.length_take]
    dsimp only
    omega
  have hmissing : 0 < body.length - j := by omega
  rw [withBound, borrowing_apply]
  cases threshold with
  | none =>
    obtain rfl : content = body := hbody
    obtain ⟨t, hrun, -⟩ := Program.run_eq (h.overrun [] _) (fun ht => ht.2.1) hover
      (handleHelper_cut handlePacket hid hknown hmissing)
    rw [readBody_none, hrun]
  | some threshold =>
    obtain ⟨m, hzero, hm⟩ := hbody
    obtain ⟨used, rfl, hused, hagain⟩ := Leb128.decode_split hzero
    have hpayload : payload.length ≤ content.length := by
      obtain ⟨used', rfl, -, -⟩ := Leb128.decode_split hid
      simp
    by_cases hcut : j < used.length
    · have heval : (VarInt.fromReader : Program ReadError Unit VarInt).onBytes
          ((used ++ content).take j) =
          (.error (.streamError failedToFill), []) :=
        varInt_cut _ hzero (by rw [List.length_append]; omega)
      obtain ⟨t, hrun, -⟩ := Program.onReader_eq (h.overrun [] _) hover heval
      have hread : VarInt.fromReader.onReader
          (DecompressionStateWrappedReader.mk s (⟨r, (used ++ content).length⟩ : Take ρ)) =
          ((.error (.streamError failedToFill) : Except ReadError VarInt), ⟨s, t⟩) := by
        rw [Program.onReader_passes (DecompressionStateWrappedReader.passes s), hrun]
      rw [readBody, bind_error hread, cutError, if_neg (by rw [List.length_append]; omega)]
    · have hread : Leb128.decode 5 ((used ++ content).take j) =
          some (m, content.take (j - used.length)) := by
        rw [List.take_append, List.take_of_length_le (by omega), hagain 5 _ hused]
      obtain ⟨t, ht, hrun⟩ := readVarInt (h.overrun [] _) hover hread
      obtain ⟨t', hhelper, -⟩ := Program.run_eq (h.overrun [] _) (fun ht => ht.2.1) ht
        (handleHelper_cut handlePacket hid hknown hmissing)
      rw [readBody, bind_ok (hrun s)]
      simp only [hm]
      have hpassed := @Program.run_passes _ _ _ _ _ _ _ _
        (DecompressionStateWrappedReader.passes s) Take.limit
        remaining (fun _ => rfl) (handleHelper S handlePacket) t
      have hwanted : (used ++ content).length - payload.length = used.length +
          (content.length - payload.length) := by
        rw [List.length_append]
        omega
      rw [hhelper] at hpassed
      rw [hwanted, cutError_behind (by omega)]
      exact congrArg Prod.fst hpassed

/-- **A frame that the stream ends within is not taken for a packet.** Wherever a frame that is not
compressed is cut, and whatever the handler makes of the bytes that are there, the packet fails with
the stream. -/
theorem cut_frame_fails (h : Delivers R Never) {Complete : Bytes → Bytes → Prop} {threshold : Option Nat}
    {content frame payload : Bytes} {n : Nat} {designator : δ}
    (hframe : Framed Complete threshold content frame)
    (hplain : ∀ least, threshold = some least → content.length < least)
    (hid : Leb128.decode 5 content = some (n, payload))
    (hknown : S.designatorFromId (BitVec.ofNat 32 n) = some designator) {k : Nat}
    (hk : k < frame.length) {r : DecompressionStateWrappedReader ι ρ}
    (hr : R r.reader (frame.take k)) :
    (readPacket S handlePacket threshold r).1 =
      .error (.streamError (cutError (frame.length - payload.length) k)) := by
  obtain ⟨body, rfl, hmax, hbody⟩ := hframe.uncompressed hplain
  have hpayload : payload.length ≤ body.length := by
    obtain ⟨used', rfl, -, -⟩ := Leb128.decode_split hid
    cases threshold with
    | none =>
      obtain rfl : _ = body := hbody
      rw [List.length_append]
      omega
    | some threshold =>
      obtain ⟨m, hzero, -⟩ := hbody
      obtain ⟨used, rfl, -, -⟩ := Leb128.decode_split hzero
      rw [List.length_append, List.length_append]
      omega
  have hdecode := @decode_length body [] hmax
  rw [List.append_nil, List.append_nil] at hdecode
  rw [readPacket_apply]
  by_cases hlead : k < (Leb128.encode body.length).length
  · rw [readFrame_cut h hdecode (by rw [List.length_append]; omega) hr, cutError,
      if_neg (by rw [List.length_append]; omega)]
    rfl
  · obtain ⟨used, hsplit, hused, hagain⟩ := Leb128.decode_split hdecode
    obtain rfl := List.append_cancel_right hsplit
    have hread : Leb128.decode 3 ((Leb128.encode body.length ++ body).take k) =
        some (body.length, body.take (k - (Leb128.encode body.length).length)) := by
      rw [List.take_append, List.take_of_length_le (by omega), hagain 3 _ hused]
    obtain ⟨r', hr', hwithin⟩ := readFrame_within (S := S) handlePacket h hr hread threshold
    rw [List.length_append] at hk
    have hcut := readBody_cut handlePacket h hbody hid hknown
      (j := k - (Leb128.encode body.length).length) (by omega) hr' r.decompressionState
    have hwanted : (Leb128.encode body.length ++ body).length - payload.length =
        (Leb128.encode body.length).length + (body.length - payload.length) := by
      rw [List.length_append]
      omega
    have hframe := hwithin r.decompressionState
    rw [hwanted, cutError_behind (by omega), hframe, hcut]
    rfl

end Cut

/-- The handler is content with what is there. -/
theorem cut_frame_fails_content :
    let S : ProtocolState Unit := ⟨"play", fun id => if id = 0 then some () else none⟩
    let r := DecompressionStateWrappedReader.mk (⟨Stored.start, []⟩ : Stored.Inflater)
      (Slice.mk [3, 0, 7])
    (readPacket S (fun _ => readU8) none r).1 = .error (.streamError eofDiscarding) := by
  intro S r
  have hlength : Leb128.encode 3 = [3] := Leb128.encode_last (by decide)
  have hframe : Framed Stored.Deflater.Complete none [0, 7, 8] (Leb128.encode 3 ++ [0, 7, 8]) :=
    .plain (by decide)
  rw [hlength] at hframe
  have hid : Leb128.decode 5 [0, 7, 8] = some (0, [7, 8]) := rfl
  exact cut_frame_fails (S := S) (k := 3) Slice.delivers hframe (fun _ h => nomatch h) hid
    rfl (by decide) rfl

end Protocraft
