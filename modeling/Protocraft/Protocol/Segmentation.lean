import Protocraft.Protocol.Read
import Protocraft.Stream.Stored

/-! Compressed frames that come in pieces.

The decompressing reader makes one call for each read, and returns no byte when that call
writes none; those above it take this for the end of the stream. A packet is read from
pieces as from the whole just when this does not happen (`compressed_read_exact_iff`).
What the calls leave of the frame's body is left in the stream: the next packet starts where
the frame ends just when the last call took all of it (`compressed_frame_consumed_iff`). -/
namespace Protocraft
open Protocraft.Stream

/-! ### Within two bounds -/

section Helper
variable {δ α σ : Type} [Read σ] {Q : Take σ → Bytes → Prop} {Stalled : Take σ → Prop}
  {S : ProtocolState δ} {handlePacket : δ → Program ReadError Nat α}

/-- The handlers, each with all that it observes of its reader. -/
def watched (handlePacket : δ → Program ReadError Nat α) (designator : δ) :
    Program ReadError Nat (List Program.Observation × Except ReadError α) :=
  (handlePacket designator).observed

theorem discardRemaining_strict : discardRemaining.Strict :=
  .remaining fun _ => .discard (fun e => ⟨.streamError e, rfl⟩) (.done _)

/-- What the helper does with a packet it knows. -/
theorem handleHelper_known_run {t t₁ : Take σ} {id : VarInt} {designator : δ}
    (hid : (VarInt.fromReader : Program ReadError Nat VarInt).run Take.limit t = (.ok id, t₁))
    (hknown : S.designatorFromId id.value = some designator) :
    let handled := (handlePacket designator).run Take.limit t₁
    let discarded := discardRemaining.run Take.limit handled.2
    (handleHelper S handlePacket).run Take.limit t =
      (discarded.1.map fun _ => .handled handled.1, discarded.2) := by
  have hhelper : (handleHelper S handlePacket).run Take.limit t =
      ((handlePacket designator).attempt.bind fun result =>
        discardRemaining.bind fun _ => .done (.ok (.handled result))).run Take.limit t₁ := by
    show (VarInt.fromReader.bind _).run Take.limit t = _
    rw [Program.run_bind, hid]
    simp only [hknown]
    rfl
  rw [hhelper, Program.run_bind, Program.run_attempt]
  dsimp only
  rw [Program.run_bind]
  rcases discardRemaining.run Take.limit ((handlePacket designator).run Take.limit t₁).2
    with ⟨e | _, t₂⟩ <;> rfl

theorem handleHelper_unknown_run {t t₁ : Take σ} {id : VarInt}
    (hid : (VarInt.fromReader : Program ReadError Nat VarInt).run Take.limit t = (.ok id, t₁))
    (hunknown : S.designatorFromId id.value = none) :
    (handleHelper S handlePacket).run Take.limit t = (.ok (.unknown S.stateName id.value), t₁) := by
  show (VarInt.fromReader.bind _).run Take.limit t = _
  rw [Program.run_bind, hid]
  simp only [hunknown]
  rfl

theorem handleHelper_failed_run {t t₁ : Take σ} {e : ReadError}
    (hid : (VarInt.fromReader : Program ReadError Nat VarInt).run Take.limit t = (.error e, t₁)) :
    (handleHelper S handlePacket).run Take.limit t = (.error e, t₁) := by
  show (VarInt.fromReader.bind _).run Take.limit t = _
  rw [Program.run_bind, hid]

/-- A failure to read the id is not what the helper comes to on the bytes. -/
theorem handleHelper_unread {t t₁ : Take σ} {c payload : Bytes} {n : Nat} {e : ReadError}
    (hid : Leb128.decode 5 c = some (n, payload))
    (hread : (VarInt.fromReader : Program ReadError Nat VarInt).run Take.limit t = (.error e, t₁)) :
    ((handleHelper S (watched handlePacket)).run Take.limit t).1.bind Invocation.result ≠
      ((handleHelper S (watched handlePacket)).eval List.length c).1.bind Invocation.result := by
  intro heq
  rw [handleHelper_failed_run hread] at heq
  cases hdesignator : S.designatorFromId (BitVec.ofNat 32 n) with
  | some designator =>
    obtain ⟨log, result, hok⟩ :=
      @Program.observed_eval_ok ReadError ReadError α List.length (handlePacket designator) payload
    rw [handleHelper_known hid hdesignator, watched, hok] at heq
    cases heq
  | none =>
    rw [handleHelper_unknown hid hdesignator] at heq
    have hnever : ∀ state id, e ≠ .unknownPacket state id :=
      (VarInt.fromReader_fails (E := fun e => ∀ state id, e ≠ .unknownPacket state id)
        (fun _ _ _ => by simp) (fun _ _ => by simp)).run (congrArg Prod.fst hread)
    injection heq with he
    exact absurd he (hnever _ _)

/-- A handler that observes what is there has not stalled, and neither has what follows it. -/
theorem handleHelper_observed (h : Delivers Q Stalled) (hlimit : ∀ {t c}, Q t c → t.limit = c.length)
    {t t₁ : Take σ} {c payload : Bytes} {n : Nat} {designator : δ}
    (hid : Leb128.decode 5 c = some (n, payload))
    (hread : (VarInt.fromReader : Program ReadError Nat VarInt).run Take.limit t =
      (.ok ⟨BitVec.ofNat 32 n⟩, t₁)) (ht₁ : Q t₁ payload) (hgoing : ¬ Stalled t₁)
    (hdesignator : S.designatorFromId (BitVec.ofNat 32 n) = some designator)
    (heq : ((handleHelper S (watched handlePacket)).run Take.limit t).1.bind Invocation.result =
      ((handleHelper S (watched handlePacket)).eval List.length c).1.bind Invocation.result) :
    ¬ Stalled ((handleHelper S (watched handlePacket)).run Take.limit t).2 := by
  obtain ⟨log, result, hok⟩ :=
    @Program.observed_eval_ok ReadError ReadError α List.length (handlePacket designator) payload
  rw [handleHelper_known hid hdesignator, handleHelper_known_run hread hdesignator] at heq
  rw [handleHelper_known_run hread hdesignator]
  dsimp only at heq ⊢
  have hbytes : ((watched handlePacket designator).eval List.length payload).1 = .ok (log, result) := hok
  rcases hdiscard : discardRemaining.run Take.limit
    ((watched handlePacket designator).run Take.limit t₁).2 with ⟨e | _, t₂⟩
  · rw [hdiscard, hbytes] at heq
    cases heq
  · rw [hdiscard] at heq
    have hwatched : ¬ Stalled ((watched handlePacket designator).run Take.limit t₁).2 :=
      Program.observed_exact h hlimit (handlePacket designator) ht₁ hgoing heq
    have ht₂ := ((Program.run_did h hlimit (watched handlePacket designator) ht₁).exact hwatched).2
    have hdone := discardRemaining_strict.run_ok h ht₂ hwatched (congrArg Prod.fst hdiscard)
    rwa [hdiscard] at hdone

/-- **On a reader that may stall a handler observes, and the packet comes to, what they
would on the bytes, just when it does not stall.** -/
theorem handleHelper_exact_iff (h : Delivers Q Stalled) (hlimit : ∀ {t c}, Q t c → t.limit = c.length)
    {t : Take σ} {c payload : Bytes} {n : Nat} (ht : Q t c) (hs : ¬ Stalled t)
    (hid : Leb128.decode 5 c = some (n, payload)) :
    ((handleHelper S (watched handlePacket)).run Take.limit t).1.bind Invocation.result =
        ((handleHelper S (watched handlePacket)).eval List.length c).1.bind Invocation.result ↔
      ¬ Stalled ((handleHelper S (watched handlePacket)).run Take.limit t).2 := by
  refine ⟨fun heq => ?_, fun hgoing => by rw [((Program.run_did h hlimit _ ht).exact hgoing).1]⟩
  have hevaluated := VarInt.fromReader_eval List.length hid
  rcases hread : (VarInt.fromReader : Program ReadError Nat VarInt).run Take.limit t with ⟨e | id, t₁⟩
  · exact absurd heq (handleHelper_unread hid hread)
  · have hgoing : ¬ Stalled t₁ := by
      have hok := VarInt.fromReader_strict.run_ok h ht hs (congrArg Prod.fst hread)
      rwa [hread] at hok
    have hexact := (Program.run_did h hlimit (VarInt.fromReader : Program ReadError Nat VarInt) ht).exact
      (by rwa [hread])
    rw [hread, hevaluated] at hexact
    obtain ⟨hvalue, ht₁⟩ := hexact
    cases hvalue
    cases hdesignator : S.designatorFromId (BitVec.ofNat 32 n) with
    | none => rwa [handleHelper_unknown_run hread hdesignator]
    | some designator => exact handleHelper_observed h hlimit hid hread ht₁ hgoing hdesignator heq

theorem discardRemaining_run (t : Take σ) : discardRemaining.run Take.limit t =
    ((discard t.limit t).1.mapError .streamError, (discard t.limit t).2) := rfl

/-- Behind a handled packet nothing is left within the limit. -/
theorem handleHelper_drained (hmetered : Metered (Take.limit : Take σ → Nat)) {t t' : Take σ}
    {result : Except ReadError α}
    (hok : (handleHelper S handlePacket).run Take.limit t = (.ok (.handled result), t')) :
    t'.limit = 0 := by
  rcases hread : (VarInt.fromReader : Program ReadError Nat VarInt).run Take.limit t with ⟨e | id, t₁⟩
  · rw [handleHelper_failed_run hread] at hok
    cases hok
  · cases hdesignator : S.designatorFromId id.value with
    | none =>
      rw [handleHelper_unknown_run hread hdesignator] at hok
      cases hok
    | some designator =>
      rw [handleHelper_known_run hread hdesignator, discardRemaining_run] at hok
      generalize ((handlePacket designator).run Take.limit t₁).2 = t₂ at hok
      rcases hdiscard : discard t₂.limit t₂ with ⟨e | _, t₃⟩ <;> rw [hdiscard] at hok <;> cases hok
      have hmeter := hmetered.discard hdiscard
      dsimp only
      omega

end Helper

/-! ### The bytes that a handler gets -/

section Exact
variable {δ α ι ρ : Type} [Inflate ι] [BufRead ρ] {D : ι → Bytes → Bytes → Prop} {R : ρ → Bytes → Prop}
  {S : ProtocolState δ} {handlePacket : δ → Program ReadError Nat α}

/-- A log of the decompressor's calls changes nothing. -/
theorem handleHelper_unlogged (t : Take (DecompressionReader (Logged ι) ρ)) :
    (handleHelper S handlePacket).run Take.limit
    (⟨t.inner.unlogged, t.limit⟩ : Take (DecompressionReader ι ρ)) =
      (((handleHelper S handlePacket).run Take.limit t).1,
        ⟨((handleHelper S handlePacket).run Take.limit t).2.inner.unlogged,
          ((handleHelper S handlePacket).run Take.limit t).2.limit⟩) :=
  Program.run_passes DecompressionReader.unlogged_passes.take (fun _ => rfl) _ t

theorem readFrame_unlogged (hdelivers : Delivers R Never) {c z rest : Bytes} {size : Nat}
    (hframe : CompressedFrame c z size rest) {r : ρ} (hr : R r c) (threshold : Nat) (s : ι) :
    let logged := readFrame S handlePacket (some threshold)
      (DecompressionStateWrappedReader.mk (Logged.mk s []) r)
    readFrame S handlePacket (some threshold) (DecompressionStateWrappedReader.mk s r) =
      (logged.1, ⟨logged.2.decompressionState.state, logged.2.reader⟩) := by
  obtain ⟨t, -, hread⟩ := readFrame_compressed S handlePacket hdelivers hr hframe threshold
  have hunlogged :=
    @handleHelper_unlogged _ _ ι _ _ _ S handlePacket ⟨⟨⟨Inflate.resetAs s, []⟩, t⟩, size⟩
  dsimp only at hunlogged ⊢
  rw [hread, hread]
  exact congrArg (fun d =>
    (d.1, DecompressionStateWrappedReader.mk d.2.inner.state d.2.inner.reader.inner)) hunlogged

/-- **A compressed frame is read as if it came in one piece just when no call of the
decompressor writes nothing.** -/
theorem compressed_read_exact_iff (h : Decoding D) (hdelivers : Delivers R Never) (hfills : Fills R)
    {c z plain rest payload : Bytes} {n : Nat} (hframe : CompressedFrame c z plain.length rest) (s : ι)
    (hz : D (Inflate.resetAs s) z plain) (hid : Leb128.decode 5 plain = some (n, payload)) {r : ρ}
    (hr : R r c) (S : ProtocolState δ) (handlePacket : δ → Program ReadError Nat α) (threshold : Nat) :
    (readPacket S (watched handlePacket) (some threshold) (DecompressionStateWrappedReader.mk s r)).1 =
        (readPacket S (watched handlePacket) (some threshold)
          (DecompressionStateWrappedReader.mk s (Slice.mk c))).1 ↔
      ¬ (readPacket S (watched handlePacket) (some threshold)
          (DecompressionStateWrappedReader.mk (Logged.mk s []) r)).2.decompressionState.Silent := by
  obtain ⟨t, ht, hread⟩ :=
    readFrame_compressed S (watched handlePacket) hdelivers hr hframe threshold
  obtain ⟨u, hu, hslice⟩ :=
    readFrame_compressed S (watched handlePacket) Slice.delivers (show Slice.Holds ⟨c⟩ c from rfl)
      hframe threshold
  have hyields := DecompressionReader.yields h (hfills.take rest)
  have hwhole := DecompressionReader.yields_whole h (Slice.fills.take rest) (Slice.whole.take rest)
  have hstart : Taken (DecompressionReader.InflatingLogged D (Taken R rest)) []
      (⟨⟨⟨Inflate.resetAs s, []⟩, t⟩, plain.length⟩ :
        Take (DecompressionReader (Logged ι) (Take ρ))) plain :=
    ⟨⟨z, ht, by rwa [List.append_nil]⟩, rfl⟩
  have hfresh : ¬ (Logged.mk (Inflate.resetAs s) []).Silent := by
    intro h
    obtain ⟨call, hcall, -⟩ := h
    cases hcall
  have hpieces := @handleHelper_exact_iff _ _ _ _ _ _ S handlePacket (hyields.take [])
    (fun ht => ht.2.symm) _ _ _ _ hstart hfresh hid
  have hslice₀ : Taken (DecompressionReader.Inflating D (Taken Slice.Holds rest)) []
      (⟨⟨Inflate.resetAs s, u⟩, plain.length⟩ : Take (DecompressionReader ι (Take Slice))) plain :=
    ⟨⟨z, hu, by rwa [List.append_nil]⟩, rfl⟩
  obtain ⟨u', hrun, -⟩ := @Program.run_eq _ _ _ _ _ _ (hwhole.take []) Take.limit List.length
    (fun ht => ht.2.symm) (handleHelper S (watched handlePacket)) _ _ _ _ hslice₀ rfl
  rw [readPacket_apply, readPacket_apply, readPacket_apply,
    readFrame_unlogged hdelivers hframe hr, hread, hslice, hrun]
  exact hpieces

/-- In three pieces, each of which the decompressor can write from. -/
theorem compressed_read_exact_pieces :
    let S : ProtocolState Unit := ⟨"play", fun id => if id = 0 then some () else none⟩
    let frame : Bytes := [0x0e, 2, 0x78, 1, 1, 2, 0, 0xfd, 0xff, 0, 7, 0, 9, 0, 8]
    let pieces : Segments := ⟨[[0x0e], [2, 0x78, 1, 1, 2, 0, 0xfd, 0xff, 0], [7, 0, 9, 0, 8]], by decide⟩
    let inflater : Stored.Inflater := ⟨Stored.start, []⟩
    (readPacket S (watched fun _ => readU8) (some 0)
        (DecompressionStateWrappedReader.mk inflater (BufReader.mk pieces [] 64))).1 =
      (readPacket S (watched fun _ => readU8) (some 0)
        (DecompressionStateWrappedReader.mk inflater (Slice.mk frame))).1 := by
  intro S frame pieces inflater
  have hframe : CompressedFrame frame (frame.drop 2) [0, 7].length [] :=
    ⟨⟨frame.drop 1, 2, by decide, by decide, by decide⟩, by decide, by decide⟩
  have hyields : Stored.Inflater.Yields (Inflate.resetAs inflater) (frame.drop 2) [0, 7] :=
    ⟨by decide, by decide⟩
  have hheld : Buffered Segments.Holds (BufReader.mk pieces [] 64) frame :=
    ⟨by decide, frame, rfl, rfl⟩
  refine (compressed_read_exact_iff Stored.Inflater.ideal.toDecoding Segments.delivers.buffered
    Segments.delivers.fills hframe inflater hyields rfl hheld S (fun _ => readU8) 0).mpr ?_
  unfold Logged.Silent
  decide +kernel

/-- The first byte of the zlib header comes in a piece of its own; the call that gets it
writes nothing, and the packet is lost. -/
theorem compressed_read_split :
    let S : ProtocolState Unit := ⟨"play", fun id => if id = 0 then some () else none⟩
    let frame : Bytes := [0x0e, 2, 0x78, 1, 1, 2, 0, 0xfd, 0xff, 0, 7, 0, 9, 0, 8]
    let pieces : Segments := ⟨[[0x0e, 2, 0x78], [1, 1, 2, 0, 0xfd, 0xff, 0, 7, 0, 9, 0, 8]], by decide⟩
    let inflater : Stored.Inflater := ⟨Stored.start, []⟩
    pieces.segments.flatten = frame ∧
    (readPacket S (fun _ => readU8) (some 0)
        (DecompressionStateWrappedReader.mk inflater (Slice.mk frame))).1 = .ok 7 ∧
    (readPacket S (fun _ => readU8) (some 0)
        (DecompressionStateWrappedReader.mk inflater (BufReader.mk pieces [] 64))).1 =
      .error (.streamError failedToFill) := by
  refine ⟨?_, ?_, ?_⟩ <;> decide +kernel

end Exact

/-! ### The end of the frame -/

section Consumed
variable {δ α ι ρ : Type} [Inflate ι] [BufRead ρ] {R : ρ → Bytes → Prop}

/-- **The next packet starts where a compressed frame ends just when the decompressor's last
call, the one that completed the packet, was given the rest of the frame and used it.** -/
theorem compressed_frame_consumed_iff (h : Inflate.Bounded ι) (hdelivers : Delivers R Never)
    (hfills : Fills R) (hdetermined : Determined R) {c z rest : Bytes} {size : Nat}
    (hframe : CompressedFrame c z size rest) (s : ι) {r : ρ} (hr : R r c) (S : ProtocolState δ)
    (handlePacket : δ → Program ReadError Nat α) (threshold : Nat) {result : Except ReadError α}
    (hok : (readFrame S handlePacket (some threshold) (DecompressionStateWrappedReader.mk s r)).1 =
      .ok (.handled result)) :
    R (readPacket S handlePacket (some threshold) (DecompressionStateWrappedReader.mk s r)).2.reader
      rest ↔
      Exhausting z (readPacket S handlePacket (some threshold)
        (DecompressionStateWrappedReader.mk (Logged.mk s []) r)).2.decompressionState.calls := by
  rw [readPacket_apply, readPacket_apply]
  rw [readFrame_unlogged hdelivers hframe hr] at hok ⊢
  obtain ⟨t, ht, hread⟩ := readFrame_compressed S handlePacket hdelivers hr hframe threshold
  rw [hread] at hok ⊢
  have hstart : DecompressionReader.Consuming (Taken R rest) z size
      (⟨⟨⟨Inflate.resetAs s, []⟩, t⟩, size⟩ : Take (DecompressionReader (Logged ι) (Take ρ))) :=
    ⟨Nat.zero_le _, ht, fun _ => rfl, fun hcalls => absurd hcalls (by simp)⟩
  have hend := Program.run_keeps (DecompressionReader.read_consuming h (hfills.take rest)) Take.limit
    (handleHelper S handlePacket) _ hstart
  have hdrained :=
    handleHelper_drained (Take.metered (DecompressionReader.read_bounded (Logged.bounded h)))
    (replied hok)
  have hleft := hend.left.1
  have hwithin := hend.within
  refine Iff.trans ?_ (hend.exhausted_iff hframe.nonzero hdrained)
  constructor
  · intro hrest
    have hnone : z.drop _ = [] := List.append_left_eq_self.mp (hdetermined hleft hrest)
    have hall := List.drop_eq_nil_iff.mp hnone
    omega
  · intro hall
    rw [hall, List.drop_length] at hleft
    exact hleft

/-- In one piece. -/
theorem compressed_frame_consumed_whole :
    let S : ProtocolState Unit := ⟨"play", fun id => if id = 0 then some () else none⟩
    let frame : Bytes := [0x0e, 2, 0x78, 1, 1, 2, 0, 0xfd, 0xff, 0, 7, 0, 9, 0, 8]
    let stream : Segments := ⟨[frame, [1]], by decide⟩
    let inflater : Stored.Inflater := ⟨Stored.start, []⟩
    Buffered Segments.Holds (readPacket S (fun _ => readU8) (some 0)
      (DecompressionStateWrappedReader.mk inflater (BufReader.mk stream [] 64))).2.reader [1] := by
  intro S frame stream inflater
  have hframe : CompressedFrame (frame ++ [1]) (frame.drop 2) 2 [1] :=
    ⟨⟨frame.drop 1, 2, by decide, by decide, by decide⟩, by decide, by decide⟩
  have hheld : Buffered Segments.Holds (BufReader.mk stream [] 64) (frame ++ [1]) :=
    ⟨by decide, frame ++ [1], show stream.segments.flatten = _ by decide, rfl⟩
  have hhandled : (readFrame S (fun _ => readU8) (some 0)
      (DecompressionStateWrappedReader.mk inflater (BufReader.mk stream [] 64))).1 =
        .ok (.handled (.ok 7)) := by decide +kernel
  refine (compressed_frame_consumed_iff Stored.Inflater.bounded Segments.delivers.buffered
    Segments.delivers.fills Segments.determined.buffered hframe inflater hheld S (fun _ => readU8) 0
    hhandled).mpr ?_
  -- The second call gets no more input: it writes what the first one kept.
  refine ⟨[⟨frame.drop 2, 1, ⟨13, [0], .ok .ok⟩⟩], ⟨[], 1, ⟨0, [7], .ok .streamEnd⟩⟩, ?_, ?_, ?_⟩ <;>
    decide +kernel

/-- The checksum comes behind the call that completes the packet: it stays in the stream,
and the next packet is read from it. -/
theorem compressed_frame_trailer_left :
    let S : ProtocolState Unit := ⟨"play", fun id => if id = 0 then some () else none⟩
    let frame : Bytes := [0x0e, 2, 0x78, 1, 1, 2, 0, 0xfd, 0xff, 0, 7, 0, 9, 0, 8]
    let stream : Segments :=
      ⟨[[0x0e, 2, 0x78, 1, 1, 2, 0, 0xfd, 0xff, 0], [7], [0, 9, 0, 8], frame], by decide⟩
    let inflater : Stored.Inflater := ⟨Stored.start, []⟩
    let start := DecompressionStateWrappedReader.mk inflater (BufReader.mk stream [] 64)
    stream.segments.flatten = frame ++ frame ∧
    (readFrame S (fun _ => readU8) (some 0) start).1 = .ok (.handled (.ok 7)) ∧
    (readPacket S (fun _ => readU8) (some 0) start).2.reader.buffer = [] ∧
    (readPacket S (fun _ => readU8) (some 0) start).2.reader.inner.segments = [[0, 9, 0, 8], frame] ∧
    (readPackets S (fun _ => readU8) [some 0, some 0] start).1 =
      [.ok 7, .error (.streamError failedToFill)] := by
  refine ⟨?_, ?_, ?_, ?_, ?_⟩ <;> decide +kernel

end Consumed

end Protocraft
