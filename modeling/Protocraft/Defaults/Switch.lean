import Protocraft.Defaults.Reader

/-! Switching a stream to encryption.

`with_encryption` puts the sink of a writer, and its buffer, emptied, under an
encrypting writer. What had been accepted and was still in the buffer is dropped, so
nothing is lost just when nothing was there (`switch_lossless_iff`). -/
namespace Protocraft
open Protocraft.Stream

/-! ### Writers -/

namespace DefaultWriter
variable {κ ω : Type} [Write ω] {received : ω → Bytes}

/-- A writer that has not been switched stays so. -/
theorem run_new (k : κ) (sink : ω) (bufferSize : Nat) (ops : List WriteOp) :
    (Session.mk (DefaultWriter.new k sink bufferSize) []).run ops =
      ((Session.mk (⟨(), sink, [], bufferSize⟩ : BufferedWriter ω) []).run ops).map
        (fun b => DefaultWriter.mk k (.standard b)) :=
  (wraps_standard k).run ⟨⟨(), sink, [], bufferSize⟩, []⟩ ops

/-- After the switch the sink gets the encryption of what is accepted then, behind what
it had. -/
theorem switched_flushed (hlawful : Lawful received) {aes : Block → Block → Block} {key : Block}
    {w w' : DefaultWriter κ ω} (hswitch : w.withEncryption aes key = some w') (ops : List WriteOp)
    (hclean : w'.Clean received (ops ++ [.flush]))
    (hok : (Write.flush ((Session.mk w' []).run ops).writer).1 = .ok ()) :
    received (Write.flush ((Session.mk w' []).run ops).writer).2.sink =
      received w.sink ++
        Cfb8.encryptor.output (.new aes key) ((Session.mk w' []).run ops).accepted := by
  rcases w with ⟨k, b | e⟩
  · obtain rfl : DefaultWriter.mk k (.encrypt ⟨.new aes key, b.writer, [], b.capacity⟩) = w' :=
      Option.some.inj hswitch
    have hrun : (Session.mk _ []).run ops = _ := (wraps_encrypt k).run
      (⟨⟨.new aes key, b.writer, [], b.capacity⟩, []⟩ : Session (EncryptionWriter ω)) ops
    rw [hrun] at hok ⊢
    have hstart : Staged.Clean received False
      (⟨.new aes key, b.writer, [], b.capacity⟩ : EncryptionWriter ω) (ops ++ [.flush]) := hclean
    obtain ⟨torn, hsound, hflush⟩ := (Staged.Sound.fresh rfl).run hlawful hstart
    exact hsound.flushed hlawful hflush.1 hok
  · cases hswitch

end DefaultWriter

namespace AsyncDefaultWriter
variable {ω : Type} [AsyncWrite ω] {received : ω → Bytes}

/-- After the switch the sink gets the encryption of what is accepted then, behind what
it had. -/
theorem switched_flushed (hlawful : AsyncLawful received) {aes : Block → Block → Block}
    {key : Block} {w w' w'' : AsyncDefaultWriter ω} (hswitch : w.withEncryption aes key = some w')
    {t : Session (AsyncDefaultWriter ω)} (hreach : polls.Reaches ⟨w', []⟩ t)
    (hflush : polls.flush t.writer (.ready (.ok ())) w'') :
    received w''.sink = received w.sink ++ Cfb8.encryptor.output (.new aes key) t.accepted := by
  cases w with
  | standard b =>
    obtain rfl : encrypt ⟨.new aes key, b.writer, [], b.capacity, .fill⟩ = w' := Option.some.inj hswitch
    obtain ⟨u, rfl, hinner⟩ :=
      wraps_encrypt.reaches (Session.mk ⟨.new aes key, b.writer, [], b.capacity, .fill⟩ []) hreach
    obtain ⟨e, rfl, hflushed⟩ := wraps_encrypt.flush hflush
    have h := (AsyncStaged.Delivering.fresh rfl rfl).reaches hlawful.takes hinner
    obtain ⟨hd, hdone⟩ := h.pollFlush hlawful.takes hflushed
    obtain ⟨hstate, hbuffer⟩ := hdone rfl
    have hdelivered := hd.delivered
    simp only [AsyncStaged.outstanding, hstate, hbuffer, Mealy.output_nil, List.append_nil] at hdelivered
    exact hdelivered
  | encrypt e => cases hswitch

/-- What a writer that has not been switched has delivered. -/
theorem new_delivered (hlawful : AsyncLawful received) {sink : ω} {bufferSize : Nat}
    {s : Session (AsyncDefaultWriter ω)} (hreach : polls.Reaches ⟨new sink bufferSize, []⟩ s) :
    received s.writer.sink ++ s.writer.outstanding = received sink ++ s.accepted := by
  obtain ⟨u, rfl, hinner⟩ :=
    wraps_standard.reaches (Session.mk ⟨(), sink, [], bufferSize, .fill⟩ []) hreach
  have hdelivered := ((AsyncStaged.Delivering.fresh rfl rfl).reaches hlawful.takes hinner).delivered
  have hidentity : InPlace.machine.output () u.accepted = u.accepted := Mealy.identity_output _ _
  rwa [hidentity] at hdelivered

end AsyncDefaultWriter

/-! ### Nothing lost -/

/-- **The switch loses nothing just when nothing was left to deliver.** The synchronous
writer, switched after any calls `before` and then given any calls `after`, none of
which hands a torn buffer over again, ending in a flush that succeeds: the sink has the
bytes accepted before in plain and those accepted after encrypted just when it had the
former, exactly, at the switch, and if no torn buffer was handed over before it either,
just when the buffer was empty. The polled writers: just when nothing was outstanding. -/
theorem switch_lossless_iff (aes : Block → Block → Block) (key : Block) :
    (∀ {κ ω : Type} [Write ω] {received : ω → Bytes}, Lawful received →
      ∀ (k : κ) (sink : ω) (bufferSize : Nat) (before after : List WriteOp) (w : DefaultWriter κ ω),
      let start := DefaultWriter.new k sink bufferSize
      let s := (Session.mk start []).run before
      let t := (Session.mk w []).run after
      s.writer.withEncryption aes key = some w → w.Clean received (after ++ [.flush]) →
      (Write.flush t.writer).1 = .ok () →
      (received (Write.flush t.writer).2.sink =
          received sink ++ s.accepted ++ Cfb8.encryptor.output (.new aes key) t.accepted ↔
        received s.writer.sink = received sink ++ s.accepted) ∧
      (start.Clean received before →
        (received s.writer.sink = received sink ++ s.accepted ↔ s.writer.buffer = []))) ∧
    (∀ {ω : Type} [AsyncWrite ω] {received : ω → Bytes}, AsyncLawful received →
      ∀ (sink : ω) (bufferSize : Nat)
        (s t : Session (AsyncDefaultWriter ω)) (w w' : AsyncDefaultWriter ω),
      AsyncDefaultWriter.polls.Reaches ⟨.new sink bufferSize, []⟩ s →
      s.writer.withEncryption aes key = some w → AsyncDefaultWriter.polls.Reaches ⟨w, []⟩ t →
      AsyncDefaultWriter.polls.flush t.writer (.ready (.ok ())) w' →
      (received w'.sink =
          received sink ++ s.accepted ++ Cfb8.encryptor.output (.new aes key) t.accepted ↔
        s.writer.outstanding = [])) := by
  constructor
  · intro κ ω _ received hlawful k sink bufferSize before after w start s t hswitch hclean hok
    have hflushed := DefaultWriter.switched_flushed hlawful hswitch after hclean hok
    refine ⟨?_, fun hbefore => ?_⟩
    · rw [hflushed]
      exact List.append_left_inj _
    · have hstart : Staged.Clean received False (⟨(), sink, [], bufferSize⟩ : BufferedWriter ω)
          (before ++ []) := by
        rw [List.append_nil]
        exact hbefore
      obtain ⟨torn, hsound, -⟩ := (Staged.Sound.fresh rfl).run hlawful hstart
      have hiff := hsound.delivered_iff
      rw [show Staged.encoded () _ = _ from Mealy.identity_output _ _] at hiff
      have hrun : s = _ := DefaultWriter.run_new k sink bufferSize before
      rw [hrun]
      exact hiff
  · intro ω _ received hlawful sink bufferSize s t w w' hreach hswitch hreach' hflush
    rw [AsyncDefaultWriter.switched_flushed hlawful hswitch hreach' hflush,
      ← AsyncDefaultWriter.new_delivered hlawful hreach, List.append_left_inj]
    simp

/-- A switch after a flush, and a polled one before any byte. -/
theorem switch_lossless_flushed :
    let aes : Block → Block → Block := fun _ _ _ => 1
    let key : Block := fun _ => 0
    let start := DefaultWriter.new () (⟨[]⟩ : Collected) 4
    let s := (Session.mk start []).run [.write [1, 2], .flush]
    let w := DefaultWriter.mk () (.encrypt ⟨.new aes key, (⟨[1, 2]⟩ : Collected), [], 4⟩)
    let t := (Session.mk w []).run [.write [3]]
    let polled : AsyncDefaultWriter AsyncScripted := .encrypt ⟨.new aes key, ⟨[], []⟩, [], 4, .fill⟩
    (((Write.flush t.writer).2.sink.bytes =
          [] ++ s.accepted ++ Cfb8.encryptor.output (.new aes key) t.accepted ↔
        s.writer.sink.bytes = [] ++ s.accepted) ∧
      (start.Clean Collected.bytes [.write [1, 2], .flush] →
        (s.writer.sink.bytes = [] ++ s.accepted ↔ s.writer.buffer = []))) ∧
    (polled.sink.bytes = [] ++ [] ++ Cfb8.encryptor.output (.new aes key) [] ↔
      (AsyncDefaultWriter.new (⟨[], []⟩ : AsyncScripted) 4).outstanding = []) := by
  intro aes key start s w t polled
  refine ⟨(switch_lossless_iff aes key).1 Collected.lawful () ⟨[]⟩ 4 [.write [1, 2], .flush]
    [.write [3]] w rfl (Staged.clean_of_reliable Collected.reliable id _ _) rfl, ?_⟩
  exact (switch_lossless_iff aes key).2 AsyncScripted.lawful ⟨[], []⟩ 4 ⟨.new ⟨[], []⟩ 4, []⟩
    ⟨polled, []⟩ polled polled .start rfl .start ⟨2, rfl⟩

/-- Two bytes accepted and not yet flushed are lost, by either writer. -/
theorem switch_drops :
    let aes : Block → Block → Block := fun _ _ _ => 1
    let key : Block := fun _ => 0
    let s := (Session.mk (DefaultWriter.new () (⟨[]⟩ : Collected) 4) []).run [.write [1, 2]]
    let w := DefaultWriter.mk () (.encrypt ⟨.new aes key, (⟨[]⟩ : Collected), [], 4⟩)
    let t := (Session.mk w []).run [.write [3]]
    let start : AsyncBufferedWriter AsyncScripted := ⟨(), ⟨[], []⟩, [], 4, .fill⟩
    let filled : AsyncBufferedWriter AsyncScripted := {start with buffer := [1, 2]}
    let polled : AsyncDefaultWriter AsyncScripted := .encrypt ⟨.new aes key, ⟨[], []⟩, [], 4, .fill⟩
    (s.writer.withEncryption aes key = some w ∧ (Write.flush t.writer).1 = .ok () ∧
      ¬ (Write.flush t.writer).2.sink.bytes =
        s.accepted ++ Cfb8.encryptor.output (.new aes key) t.accepted) ∧
    (AsyncDefaultWriter.polls.Reaches ⟨.standard start, []⟩ ⟨.standard filled, [1, 2]⟩ ∧
      (AsyncDefaultWriter.standard filled).withEncryption aes key = some polled ∧
      AsyncDefaultWriter.polls.flush polled (.ready (.ok ())) polled ∧
      ¬ polled.sink.bytes = [1, 2] ++ Cfb8.encryptor.output (.new aes key) []) := by
  have hlost : ¬ ([2] : Bytes) = [1, 2] ++ [2] := by decide
  have hlost' : ¬ ([] : Bytes) = [1, 2] ++ [] := by decide
  exact ⟨⟨rfl, rfl, hlost⟩, @Polls.Reaches.write _ _ _ ⟨AsyncDefaultWriter.new ⟨[], []⟩ 4, []⟩
    [1, 2] (.ready (.ok 2)) _ .start ⟨1, rfl⟩, rfl, ⟨2, rfl⟩, hlost'⟩

end Protocraft
