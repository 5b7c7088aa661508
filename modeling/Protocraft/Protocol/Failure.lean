import Protocraft.Protocol.Limits

/-! What a packet leaves behind that fails to be written.

The length and the id go into the writer's buffer ahead of the packet, so one that then fails
leaves them there, with what it has written of itself, and the next packet sends them along;
but not where the packet is compressed first, and not where it is refused as too long
(`failed_leaves_nothing_iff`). -/
namespace Protocraft
open Protocraft.Stream

/-- A failing packet fails in front of the first byte of its frame. -/
def Outgoing.FailsEarly (p : Outgoing) : Prop :=
  match plainBody p.threshold ⟨p.id⟩ p.packet with
  | none => True
  | some body => maxPacketSize < body.size

section Failure
variable {κ ω : Type} [Deflate κ] [Write ω] {turns : Nat} {w w' : DefaultWriter κ ω}

omit [Write ω] in
theorem preCompress_writer (turns : Nat) (id : VarInt) (packet : Packet) (w : DefaultWriter κ ω) :
    (preCompress turns id packet w).2.writer = w.writer := rfl

/-- What a packet that fails has put into the writer: nothing if it fails early, and something
otherwise. -/
theorem writeFrame_failed {p : Outgoing} {e : Stop WriteError} (he : ¬ FromWriter e)
    (hfailed : writeFrame turns p.threshold ⟨p.id⟩ p.packet w = (.error e, w')) :
    (p.FailsEarly → w'.writer = w.writer) ∧ (¬ p.FailsEarly →
      ∀ {E : DefaultWriter κ ω → Bytes → Prop} {bytes : Bytes}, Emits E → E w bytes →
        ∃ left, left ≠ [] ∧ E w' (bytes ++ left)) := by
  cases hbody : plainBody p.threshold ⟨p.id⟩ p.packet with
  | some body =>
    obtain ⟨name, hwrite⟩ := @writeFrame_plain (DefaultWriter κ ω) _ _ _ _ _ _ turns _ _ _ _ hbody
    rw [hwrite] at hfailed
    rw [Outgoing.FailsEarly, hbody]
    dsimp only
    constructor
    · intro hlong
      rw [if_pos hlong] at hfailed
      cases hfailed
      rfl
    · intro hlong E bytes hemits hw
      rw [if_neg hlong] at hfailed
      obtain ⟨failure, -, -, heach⟩ := Packet.toWriter_failed hfailed he
      refine ⟨_, ?_, hemits.each hw heach⟩
      exact fun hnil => Leb128.encode_ne_nil _ (List.append_eq_nil_iff.mp hnil).1
  | none =>
    rw [writeFrame_compressed hbody] at hfailed
    rw [Outgoing.FailsEarly, hbody]
    refine ⟨fun _ => ?_, fun h => absurd trivial h⟩
    have hwriter := preCompress_writer turns ⟨p.id⟩ p.packet w
    rcases hpre : preCompress turns ⟨p.id⟩ p.packet w with ⟨e₁ | ⟨n, payload⟩, w₁⟩ <;>
      rw [hpre] at hfailed hwriter
    · cases hfailed
      exact hwriter
    · dsimp only at hfailed
      split at hfailed
      · cases hfailed
        exact hwriter
      · split at hfailed
        · cases hfailed
          exact hwriter
        · -- The packet has been written once already, so the second time it fails with the writer.
          have hwritten := written_of_preCompress hpre
          exact absurd (lengths_throws turns _ _ payload ⟨p.id⟩ hwritten _ _ _ hfailed) he

omit [Deflate κ] [Write ω] in
theorem DefaultWriter.length_encoded (w : DefaultWriter κ ω) (bytes : Bytes) :
    (w.encoded bytes).length = bytes.length := by
  obtain ⟨k, b | e⟩ := w <;> exact Mealy.length_output _ _ _

end Failure

/-! ### Runs -/

section Runs
variable {κ ω : Type} [Deflate κ] [Write ω] {received : ω → Bytes} {turns : Nat}
  {start : DefaultWriter κ ω}

/-- Packets are written one after the other, whatever came of those before, over a stream that
does not fail: the frames of those that were written, and those that failed. -/
inductive Attempts (turns : Nat) (start : DefaultWriter κ ω) :
    DefaultWriter κ ω → List Bytes → List Outgoing → Prop
  | start : Attempts turns start start [] []
  | written {w w' : DefaultWriter κ ω} {frames : List Bytes} {failed : List Outgoing} {p : Outgoing}
      (h : Attempts turns start w frames failed) (hsize : p.packet.size = p.packet.bytes.length)
      (hok : writePacketInternal turns p.threshold p.id p.packet w = (.ok (), w')) :
      Attempts turns start w' (frames ++ [p.frame turns w]) failed
  | failed {w w' : DefaultWriter κ ω} {frames : List Bytes} {failed : List Outgoing} {p : Outgoing}
      {e : Stop WriteError} (h : Attempts turns start w frames failed) (he : ¬ FromWriter e)
      (hfail : writePacketInternal turns p.threshold p.id p.packet w = (.error e, w')) :
      Attempts turns start w' frames (failed ++ [p])

/-- A packet that fails does so in front of the flush. -/
theorem writePacketInternal_failed {threshold : Option Nat} {id : I32} {packet : Packet}
    {w w' : DefaultWriter κ ω} {e : Stop WriteError} (he : ¬ FromWriter e)
    (hfail : writePacketInternal turns threshold id packet w = (.error e, w')) :
    writeFrame turns threshold ⟨id⟩ packet w = (.error e, w') := by
  rw [writePacketInternal, bind_apply] at hfail
  rcases hframe : writeFrame turns threshold ⟨id⟩ packet w with ⟨e₁ | _, w₁⟩ <;> rw [hframe] at hfail
  · cases hfail
    rfl
  · have hflush : Throws FromWriter (mapError (Stop.map .streamError) (Writer.flush turns) :
        Action (Stop WriteError) (DefaultWriter κ ω) Unit) := throws_mapError fromWriter_map _
    exact absurd (hflush _ _ _ hfail) he

/-- What the writer has been given in a run: the frames, and more where a packet failed late. -/
structure Accounted (received : ω → Bytes) (start w : DefaultWriter κ ω) (frames : List Bytes)
    (failed : List Outgoing) (bytes : Bytes) : Prop where
  emitted : start.Emitted received w bytes
  exact : (∀ p ∈ failed, p.FailsEarly) → bytes = frames.flatten
  more : ¬ (∀ p ∈ failed, p.FailsEarly) → frames.flatten.length < bytes.length

theorem Accounted.written (hlawful : Lawful received) {w w' : DefaultWriter κ ω} {frames : List Bytes}
    {failed : List Outgoing} {bytes : Bytes} (h : Accounted received start w frames failed bytes)
    {p : Outgoing} (hsize : p.packet.size = p.packet.bytes.length)
    (hok : writePacketInternal turns p.threshold p.id p.packet w = (.ok (), w')) :
    Accounted received start w' (frames ++ [p.frame turns w]) failed (bytes ++ p.frame turns w) ∧
      received w'.sink = received start.sink ++ start.encoded (bytes ++ p.frame turns w) := by
  obtain ⟨_, w₁, hframe, hflush⟩ := ok_of_bind hok
  have hemits : Emits (start.Emitted received) := DefaultWriter.emits hlawful
  have hsent := (writeFrame_sends hsize hframe).2 hemits fun _ => h.emitted
  have hflushed := ok_of_mapError hflush
  have hflatten : (frames ++ [p.frame turns w]).flatten = frames.flatten ++ p.frame turns w := by
    rw [List.flatten_append, List.flatten_singleton]
  refine ⟨⟨hemits.flush hsent hflushed, fun hearly => ?_, fun hlate => ?_⟩,
    hsent.flushed hlawful (ok_of_mapError hflushed)⟩
  · rw [hflatten, h.exact hearly]
  · have := h.more hlate
    rw [hflatten, List.length_append, List.length_append]
    omega

theorem Accounted.failed (hlawful : Lawful received) {w w' : DefaultWriter κ ω} {frames : List Bytes}
    {failed : List Outgoing} {bytes : Bytes} (h : Accounted received start w frames failed bytes)
    {p : Outgoing} {e : Stop WriteError} (he : ¬ FromWriter e)
    (hfail : writePacketInternal turns p.threshold p.id p.packet w = (.error e, w')) :
    ∃ bytes', Accounted received start w' frames (failed ++ [p]) bytes' ∧
      (p.FailsEarly → w'.writer = w.writer) := by
  obtain ⟨hnothing, hsomething⟩ := writeFrame_failed he (writePacketInternal_failed he hfail)
  have hall : (∀ q ∈ failed ++ [p], q.FailsEarly) ↔ (∀ q ∈ failed, q.FailsEarly) ∧ p.FailsEarly := by
    rw [List.forall_mem_append, List.forall_mem_singleton]
  by_cases hearly : p.FailsEarly
  · refine ⟨bytes, ⟨?_, fun h' => h.exact (hall.mp h').1, fun h' => ?_⟩, fun _ => hnothing hearly⟩
    · have hemitted := h.emitted
      rw [DefaultWriter.Emitted] at hemitted ⊢
      rwa [hnothing hearly]
    · exact h.more fun hfailed => h' (hall.mpr ⟨hfailed, hearly⟩)
  · obtain ⟨left, hleft, hw'⟩ := hsomething hearly (DefaultWriter.emits hlawful) h.emitted
    refine ⟨bytes ++ left, ⟨hw', fun h' => absurd (hall.mp h').2 hearly, fun _ => ?_⟩,
      fun h' => absurd h' hearly⟩
    have hpos := List.length_pos_iff.mpr hleft
    rw [List.length_append]
    by_cases hfailed : ∀ q ∈ failed, q.FailsEarly
    · rw [h.exact hfailed]
      omega
    · have := h.more hfailed
      omega

theorem Attempts.accounted (hlawful : Lawful received) (hfresh : start.buffer = [])
    {w : DefaultWriter κ ω} {frames : List Bytes} {failed : List Outgoing}
    (hrun : Attempts turns start w frames failed) :
    ∃ bytes, Accounted received start w frames failed bytes ∧ ((∀ p ∈ failed, p.FailsEarly) →
      received w.sink = received start.sink ++ start.encoded frames.flatten) := by
  induction hrun with
  | start =>
    refine ⟨[], ⟨.fresh hfresh, fun _ => rfl, fun h => absurd (fun p hp => nomatch hp) h⟩, fun _ => ?_⟩
    obtain ⟨k, b | e⟩ := start <;> simp [DefaultWriter.encoded, Staged.encoded]
  | written _ hsize hok ih =>
    obtain ⟨bytes, haccounted, -⟩ := ih
    obtain ⟨haccounted', hsink⟩ := haccounted.written hlawful hsize hok
    refine ⟨_, haccounted', fun hearly => ?_⟩
    rw [hsink, haccounted'.exact hearly]
  | failed _ he hfail ih =>
    obtain ⟨bytes, haccounted, hsink⟩ := ih
    obtain ⟨bytes', haccounted', hnothing⟩ := haccounted.failed hlawful he hfail
    refine ⟨bytes', haccounted', fun hearly => ?_⟩
    obtain ⟨hbefore, hp⟩ := List.forall_mem_append.mp hearly
    have hsame := hnothing (hp _ (List.mem_singleton_self _))
    rw [← hsink hbefore, DefaultWriter.sink, DefaultWriter.sink, hsame]

/-- **A packet that fails leaves nothing on the wire just when it fails early.** In a run where
every failing packet is compressed or too long, the sink has exactly the frames of the packets
written, at every point of it; and once a packet is written after the others, it has exactly the
frames just when every packet that failed did. -/
theorem failed_leaves_nothing_iff (hlawful : Lawful received) (hfresh : start.buffer = [])
    {w : DefaultWriter κ ω}
    {frames : List Bytes} {failed : List Outgoing} (hrun : Attempts turns start w frames failed) :
    ((∀ p ∈ failed, p.FailsEarly) →
      received w.sink = received start.sink ++ start.encoded frames.flatten) ∧
    ∀ (p : Outgoing) (w' : DefaultWriter κ ω), p.packet.size = p.packet.bytes.length →
      writePacketInternal turns p.threshold p.id p.packet w = (.ok (), w') →
      (received w'.sink = received start.sink ++ start.encoded (frames ++ [p.frame turns w]).flatten ↔
        ∀ p ∈ failed, p.FailsEarly) := by
  obtain ⟨bytes, haccounted, hsink⟩ := hrun.accounted hlawful hfresh
  refine ⟨hsink, fun p w' hsize hok => ?_⟩
  obtain ⟨haccounted', hsink'⟩ := haccounted.written hlawful hsize hok
  rw [hsink']
  constructor
  · intro hframes
    by_contra hlate
    have hlonger := haccounted'.more hlate
    have hlength := congrArg List.length (List.append_cancel_left hframes)
    rw [start.length_encoded, start.length_encoded] at hlength
    omega
  · intro hearly
    rw [haccounted'.exact hearly]

/-- A packet fails while it is compressed, and one that is not compressed follows. -/
theorem failed_leaves_nothing_compressed :
    let compressor : Stored.Deflater := ⟨false, false, [], Stored.adlerStart, [], Stored.start⟩
    let start := DefaultWriter.new compressor (⟨[]⟩ : Collected) 4
    let failing : Outgoing := ⟨some 0, 0, ⟨2, [[7]], some (.custom "refused")⟩⟩
    let p : Outgoing := ⟨some 9, 1, ⟨1, [[9]], none⟩⟩
    let w := (writePacketInternal 3 failing.threshold failing.id failing.packet start).2
    let w' := (writePacketInternal 3 p.threshold p.id p.packet w).2
    w.sink.bytes = [] ++ start.encoded [] ∧
      w'.sink.bytes = [] ++ start.encoded ([] ++ [p.frame 3 w]).flatten := by
  intro compressor start failing p w w'
  have hfail : (writePacketInternal 3 failing.threshold failing.id failing.packet start).1 =
      .error (.error (.custom "refused")) := by decide +kernel
  have hok : (writePacketInternal 3 p.threshold p.id p.packet w).1 = .ok () := by decide +kernel
  have hrun : Attempts 3 start w [] [failing] := .failed .start id (replied hfail)
  have hearly : ∀ q ∈ [failing], q.FailsEarly := List.forall_mem_singleton.mpr trivial
  obtain ⟨hsink, hnext⟩ :=
    failed_leaves_nothing_iff Collected.lawful (show start.buffer = [] from rfl) hrun
  exact ⟨hsink hearly, (hnext p w' rfl (replied hok)).mpr hearly⟩

/-- Without compression the packet after the failed one takes its length, id and first byte along. -/
theorem failed_packet_delivered :
    let start := DefaultWriter.new (⟨false, false, [], Stored.adlerStart, [], Stored.start⟩ :
      Stored.Deflater) (⟨[]⟩ : Collected) 4
    let failing : Outgoing := ⟨none, 0, ⟨2, [[7]], some (.custom "refused")⟩⟩
    let p : Outgoing := ⟨none, 1, ⟨1, [[9]], none⟩⟩
    let first := writePacketInternal 3 failing.threshold failing.id failing.packet start
    let second := writePacketInternal 3 p.threshold p.id p.packet first.2
    first.1 = .error (.error (.custom "refused")) ∧ second.1 = .ok () ∧
      second.2.sink.bytes = [3, 0, 7, 2, 1, 9] ∧ p.frame 3 first.2 = [2, 1, 9] := by
  refine ⟨?_, ?_, ?_, ?_⟩ <;> decide +kernel

end Runs

end Protocraft
