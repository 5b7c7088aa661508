import Protocraft.Defaults.PreCompression

/-! The payload of a compressed packet, call by call of its compressor.

The compressor here keeps a record of its calls. A packet's writes succeed but for two kinds of
calls: those that leave exactly one byte of a write, and those made for an empty write of a
compressor that has nothing to put out (`empty_writes_iff`). What `finish` returns then is what
the calls wrote, all of it and nothing else (`finish_outputs`). -/
namespace Protocraft
open Protocraft.Stream

namespace CachedPreCompressionWriter
variable {κ : Type} [Deflate κ]

/-- The writes of a packet and its flush. -/
def compress (turns : Nat) (writes : List Bytes) :
    Action (Stop IoError) (CachedPreCompressionWriter κ) Unit := do
  writeEach turns writes
  Writer.flush turns

theorem compress_steady (writes : List Bytes) :
    Steady fun turns =>
      (compress turns writes : Action (Stop IoError) (CachedPreCompressionWriter κ) Unit) :=
  (steady.each writes).bind fun _ => steady.flush

/-- The writer of a new packet, its compressor on record. -/
def start (k : κ) : CachedPreCompressionWriter (Recorded κ) := ⟨⟨Deflate.reset k, []⟩, [], 0⟩

/-! ### Empty writes -/

section Empty
variable {Sent : κ → Bytes → Bytes → Prop} {Complete : Bytes → Bytes → Prop} {pending : κ → Bytes}
  {going : κ → Prop} {remaining : κ → Nat}

/-- No call was starved, and none has left one byte. -/
def Fine (pending : κ → Bytes) (calls : List (DeflateCall κ)) : Prop :=
  ∀ call ∈ calls, ¬ call.Starved pending ∧ ¬ call.result.LeavesOne call.input

omit [Deflate κ] in
theorem fine_append {calls : List (DeflateCall κ)} {call : DeflateCall κ} :
    Fine pending (calls ++ [call]) ↔
      Fine pending calls ∧ ¬ call.Starved pending ∧ ¬ call.result.LeavesOne call.input := by
  rw [Fine, List.forall_mem_append, List.forall_mem_singleton]
  rfl

/-- The writer has compressed `input`, and may go on. -/
structure Going (Sent : κ → Bytes → Bytes → Prop) (pending : κ → Bytes) (going : κ → Prop)
    (w : CachedPreCompressionWriter (Recorded κ)) (input : Bytes) : Prop where
  compressed : Compressed (fun r : Recorded κ => Sent r.state) w input
  going : going w.state.state
  fine : Fine pending w.state.calls

/-- Less data left, or as much left and less output pending. -/
def left (pending : κ → Bytes) (data : Bytes) (t : CachedPreCompressionWriter (Recorded κ) × Nat) :
    Nat × Nat :=
  (data.length - t.2, (pending t.1.state.state).length)

theorem Going.turn (h : Streaming Sent Complete pending going remaining)
    {w : CachedPreCompressionWriter (Recorded κ)} {input data : Bytes} {consumed : Nat}
    (hrange : InRange data (w, consumed))
    (hw : Going Sent pending going w (input ++ data.take consumed)) :
    (writeTurn data (w, consumed)).Leads
      (fun t => (InRange data t ∧ Going Sent pending going t.1 (input ++ data.take t.2)) ∧
        Prod.Lex (· < ·) (· < ·) (left pending data t) (left pending data (w, consumed)))
      (fun reply t => (reply = .ok () ∧ Going Sent pending going t.1 (input ++ data)) ∨
        (reply ≠ .ok () ∧ ¬ Fine pending t.1.state.calls)) := by
  have hconsumed : consumed ≤ data.length := hrange.1
  have hwritten : w.written ≤ w.buffer.length := Nat.le_of_lt hrange.2
  have hroom : 0 < w.buffer.length - w.written := by
    have : w.written < w.buffer.length := hrange.2
    omega
  have hlength : (data.drop consumed).length = data.length - consumed := List.length_drop
  rcases hinner : Deflate.deflate w.state.state (data.drop consumed) (w.buffer.length - w.written) .none
    with ⟨result, k⟩
  have hcall := Recorded.deflate hinner
  have hspec := hw.compressed.writeTurn (Recorded.deflating h.toDeflating) hconsumed
  by_cases hstarved : data.drop consumed = [] ∧ pending w.state.state = []
  · have herr : result.status = .error .buf := by
      rw [hstarved.1] at hinner
      rw [← h.starves hw.going hroom hstarved.2, hinner]
    rcases writeTurn_cases hconsumed hwritten hcall with ⟨err, -, hturn⟩ | ⟨status, hok, -⟩
    · rw [hturn]
      exact .inr ⟨(fun he => by cases he), fun hfine => (fine_append.mp hfine).2.1 ⟨rfl, hstarved⟩⟩
    · cases herr.symm.trans hok
  · obtain ⟨⟨status, hok⟩, hgoing, hless⟩ := h.goes hw.going hroom hstarved hinner
    have hfed : ¬ (⟨w.state.state, data.drop consumed, w.buffer.length - w.written, .none, result⟩ :
        DeflateCall κ).Starved pending := fun hs => hstarved hs.2
    rcases writeTurn_cases hconsumed hwritten hcall with
      ⟨err, herr, -⟩ | ⟨-, -, ⟨hall, hturn⟩ | ⟨hne, hlast, hturn⟩ | ⟨hleft, n, -, -, hturn⟩⟩
    · cases herr.symm.trans hok
    · rw [hturn] at hspec ⊢
      refine .inl ⟨rfl, hspec rfl, hgoing, fine_append.mpr ⟨hw.fine, hfed, fun hone => ?_⟩⟩
      have := hone.2
      dsimp only at this
      omega
    · rw [hturn]
      have hbound := (h.call hw.compressed.2 hinner hok).1
      refine .inr ⟨(fun he => by cases he), fun hfine => (fine_append.mp hfine).2.2 ⟨⟨status, hok⟩, ?_⟩⟩
      dsimp only
      omega
    · have hagain := hrange.again hturn
      rw [hturn] at hspec ⊢
      refine ⟨⟨hagain, hspec.2, hgoing, fine_append.mpr ⟨hw.fine, hfed, fun hone => ?_⟩⟩, ?_⟩
      · have := hone.2
        dsimp only at this
        omega
      · rcases Nat.eq_zero_or_pos result.bytesConsumed with hnone | hsome
        · have hdata : data.drop consumed ≠ [] := by
            rw [Ne, List.drop_eq_nil_iff]
            omega
          simp only [left, hnone, Nat.add_zero]
          exact Prod.Lex.right _ (hless hdata hnone)
        · exact Prod.Lex.left _ _ (by dsimp only; omega)

/-- A write returns, and fails only over one of those calls. -/
theorem Going.wrote (h : Streaming Sent Complete pending going remaining)
    {w : CachedPreCompressionWriter (Recorded κ)} {input : Bytes} (hw : Going Sent pending going w input)
    (data : Bytes) : ∃ turns reply w', (∀ more, write (turns + more) data w = (reply, w')) ∧
      ((reply = .ok () ∧ Going Sent pending going w' (input ++ data)) ∨
        (reply ≠ .ok () ∧ ¬ Fine pending w'.state.calls)) := by
  have hwf : WellFounded (InvImage (Prod.Lex (· < ·) (· < ·)) (left pending data)) :=
    InvImage.wf _ (Prod.lex Nat.lt_wfRel Nat.lt_wfRel).wf
  have hentry : InRange data (writeEntry data w) ∧
      Going Sent pending going (writeEntry data w).1 (input ++ data.take (writeEntry data w).2) := by
    refine ⟨inRange_entry data hw.compressed.1, ?_, hw.going, hw.fine⟩
    rw [show (writeEntry data w).2 = 0 from rfl, List.take_zero, List.append_nil]
    exact hw.compressed.resized (Nat.le_add_right _ _)
  obtain ⟨reply, t, hexits, hdone⟩ := Turn.total
    (I := fun t => InRange data t ∧ Going Sent pending going t.1 (input ++ data.take t.2)) hwf
    (fun ht => ht.2.turn h ht.1) hentry
  obtain ⟨turns, hrun⟩ := hexits.run
  exact ⟨turns, reply, t.1, fun more => by rw [write_eq, hrun more], hdone⟩

/-- In the loop of a flush: there is room, and no call has gone wrong. -/
structure Flushing (Sent : κ → Bytes → Bytes → Prop) (pending : κ → Bytes)
    (w : CachedPreCompressionWriter (Recorded κ)) (input : Bytes) : Prop where
  room : w.written < w.buffer.length
  compressed : Compressed (fun r : Recorded κ => Sent r.state) w input
  fine : Fine pending w.state.calls

omit [Deflate κ] in
theorem Going.flushEntry {w : CachedPreCompressionWriter (Recorded κ)} {input : Bytes}
    (hw : Going Sent pending going w input) : Flushing Sent pending (flushEntry w) input := by
  refine ⟨flushEntry_room hw.compressed.1, ?_, ?_⟩
  · rw [CachedPreCompressionWriter.flushEntry]
    split
    · exact hw.compressed.resized (by omega)
    · exact hw.compressed
  · rw [CachedPreCompressionWriter.flushEntry]
    split <;> exact hw.fine

/-- A turn of a flush goes on with less left, or is the last. -/
theorem Flushing.turn (h : Streaming Sent Complete pending going remaining)
    {w : CachedPreCompressionWriter (Recorded κ)} {input : Bytes} (hw : Flushing Sent pending w input) :
    (flushTurn w).Leads
      (fun w' => Flushing Sent pending w' input ∧ remaining w'.state.state < remaining w.state.state)
      (fun reply w' => reply = .ok () ∧ Fine pending w'.state.calls) := by
  obtain ⟨hroom, hcompressed, hfine⟩ := hw
  rcases hinner : Deflate.deflate w.state.state [] (w.buffer.length - w.written) .finish with ⟨result, k⟩
  obtain ⟨status, hok, hless⟩ := h.finishes hcompressed.2 (by omega) hinner
  have hspec := hcompressed.flushTurn (Recorded.deflating h.toDeflating)
  have hfine' : Fine pending
      (w.state.calls ++ [⟨w.state.state, [], w.buffer.length - w.written, .finish, result⟩]) := by
    refine fine_append.mpr ⟨hfine, (fun hs => by cases hs.1), fun hone => ?_⟩
    have := hone.2
    dsimp only [List.length_nil] at this
    omega
  rcases flushTurn_cases (Nat.le_of_lt hroom) (Recorded.deflate hinner) with
    ⟨err, herr, -⟩ | ⟨status', hok', ⟨hend, hexit⟩ | ⟨hend, hagain⟩⟩
  · cases herr.symm.trans hok
  · rw [hexit]
    exact ⟨rfl, hfine'⟩
  · cases hok'.symm.trans hok
    have hroom' := flushTurn_room hroom hagain
    rw [hagain] at hspec ⊢
    exact ⟨⟨hroom', hspec, hfine'⟩, hless hend⟩

/-- A flush returns, and does not fail. -/
theorem Going.flushed (h : Streaming Sent Complete pending going remaining)
    {w : CachedPreCompressionWriter (Recorded κ)} {input : Bytes}
    (hw : Going Sent pending going w input) :
    ∃ turns w', (∀ more, flush (turns + more) w = (.ok (), w')) ∧ Fine pending w'.state.calls ∧
      Complete w'.buffer input := by
  have hwf : WellFounded (InvImage (· < ·) fun v : CachedPreCompressionWriter (Recorded κ) =>
      remaining v.state.state) := InvImage.wf _ Nat.lt_wfRel.wf
  obtain ⟨reply, w', hexits, rfl, hfine⟩ := Turn.total (I := fun v => Flushing Sent pending v input)
    hwf (fun hv => hv.turn h) hw.flushEntry
  obtain ⟨turns, hrun⟩ := hexits.run
  refine ⟨turns, w', hrun, hfine, ?_⟩
  exact (flush_ok (Recorded.deflating h.toDeflating) hw.compressed (hrun 0)).2

/-- The writes of a packet all return, as long as they succeed. -/
theorem Going.each (h : Streaming Sent Complete pending going remaining)
    {w : CachedPreCompressionWriter (Recorded κ)} {input : Bytes} (hw : Going Sent pending going w input)
    (writes : List Bytes) : ∃ turns reply w', (∀ more, writeEach (turns + more) writes w = (reply, w')) ∧
      ((reply = .ok () ∧ Going Sent pending going w' (input ++ writes.flatten)) ∨
        (reply ≠ .ok () ∧ ¬ Fine pending w'.state.calls)) := by
  induction writes generalizing w input with
  | nil => exact ⟨0, .ok (), w, fun _ => rfl, .inl ⟨rfl, by simpa using hw⟩⟩
  | cons data rest ih =>
    obtain ⟨turns₁, reply₁, w₁, hfirst, ⟨rfl, hw₁⟩ | ⟨hfailed, hbad⟩⟩ := hw.wrote h data
    · obtain ⟨turns₂, reply, w', hrest, hleft⟩ := ih hw₁
      refine ⟨turns₁ + turns₂, reply, w', fun more => ?_, ?_⟩
      · have hwrite : Writer.write (turns₁ + turns₂ + more) data w = (.ok (), w₁) := by
          rw [Nat.add_assoc]
          exact hfirst _
        rw [Protocraft.writeEach, bind_ok hwrite, Nat.add_comm turns₁, Nat.add_assoc]
        exact hrest _
      · rwa [List.flatten_cons, ← List.append_assoc]
    · cases reply₁ with
      | ok _ => exact absurd rfl hfailed
      | error e =>
        refine ⟨turns₁, .error e, w₁, fun more => ?_, .inr ⟨hfailed, hbad⟩⟩
        have hwrite : Writer.write (turns₁ + more) data w = (.error e, w₁) := hfirst more
        rw [Protocraft.writeEach, bind_error hwrite]

/-- And so does the flush behind them. -/
theorem compress_returns (h : Streaming Sent Complete pending going remaining) (k : κ)
    (writes : List Bytes) :
    ∃ turns reply w', (∀ more, compress (turns + more) writes (start k) = (reply, w')) ∧
      (reply = .ok () ↔ Fine pending w'.state.calls) ∧
        (reply = .ok () → Complete w'.buffer writes.flatten) := by
  have hstart : Going Sent pending going (start k) [] :=
    ⟨Compressed.fresh (Recorded.deflating h.toDeflating) ⟨k, []⟩, h.fresh k,
      fun call hcall => nomatch hcall⟩
  obtain ⟨turns₁, reply, w₁, heach, ⟨rfl, hw₁⟩ | ⟨hfailed, hbad⟩⟩ := hstart.each h writes
  · obtain ⟨turns₂, w', hflush, hfine, hcomplete⟩ := hw₁.flushed h
    refine ⟨turns₁ + turns₂, .ok (), w', fun more => ?_, iff_of_true rfl hfine, fun _ => hcomplete⟩
    rw [compress, Nat.add_assoc, bind_ok (heach _), Nat.add_left_comm]
    exact hflush _
  · cases reply with
    | ok _ => exact absurd rfl hfailed
    | error e =>
      refine ⟨turns₁, .error e, w₁, fun more => ?_, iff_of_false hfailed hbad,
        fun he => absurd he hfailed⟩
      rw [compress, bind_error (heach more)]

/-- **Empty writes are neutral but for the calls they starve.** Where a packet's writes without
the empty ones can be compressed, all of them can, to a payload of the same bytes, just when none
of the empty writes finds the compressor with nothing to put out, and no call leaves one byte. -/
theorem empty_writes_iff (h : Streaming Sent Complete pending going remaining) (k : κ)
    (writes : List Bytes) :
    ∃ turns plain reply w₁ w',
      (∀ more, compress (turns + more) (writes.filter (· ≠ [])) (start k) = (plain, w₁)) ∧
      (∀ more, compress (turns + more) writes (start k) = (reply, w')) ∧
      (plain = .ok () → ((reply = .ok () ∧ Complete (finish w₁).2 writes.flatten ∧
          Complete (finish w').2 writes.flatten) ↔
        ∀ call ∈ w'.state.calls, ¬ call.Starved pending ∧ ¬ call.result.LeavesOne call.input)) := by
  have hsame : (writes.filter (· ≠ [])).flatten = writes.flatten := by
    induction writes with
    | nil => rfl
    | cons data rest ih =>
      by_cases hdata : data = []
      · simpa [hdata] using ih
      · simpa [hdata] using ih
  obtain ⟨turns₁, plain, w₁, hplain, -, hcomplete₁⟩ := compress_returns h k (writes.filter (· ≠ []))
  obtain ⟨turns₂, reply, w', hall, hok, hcomplete⟩ := compress_returns h k writes
  rw [hsame] at hcomplete₁
  refine ⟨turns₁ + turns₂, plain, reply, w₁, w', fun more => ?_, fun more => ?_, fun hwithout => ?_⟩
  · rw [Nat.add_assoc]
    exact hplain _
  · rw [Nat.add_comm turns₁, Nat.add_assoc]
    exact hall _
  · constructor
    · intro hboth
      exact hok.mp hboth.1
    · intro hfine
      have hreply := hok.mpr hfine
      exact ⟨hreply, hcomplete₁ hwithout, hcomplete hreply⟩

/-- The compressor that stores, and an empty write in the middle, for which it is starved. -/
theorem empty_writes_stored :
    let k : Stored.Deflater := ⟨false, false, [], Stored.adlerStart, [], Stored.start⟩
    ∃ turns plain reply w₁ w', (∀ more, compress (turns + more) [[1], [2]] (start k) = (plain, w₁)) ∧
      (∀ more, compress (turns + more) [[1], [], [2]] (start k) = (reply, w')) ∧
      plain = .ok () ∧ reply = .error (.error ⟨.other, "Write compression error: Buf"⟩) ∧
      ¬ ∀ call ∈ w'.state.calls, ¬ call.Starved Stored.Deflater.queue ∧
          ¬ call.result.LeavesOne call.input := by
  intro k
  obtain ⟨turns, plain, reply, w₁, w', hplain, hall, hneutral⟩ :=
    empty_writes_iff Stored.Deflater.streaming k [[1], [], [2]]
  have hwithout : (compress 3 [[1], [2]] (start k)).1 = .ok () := by decide +kernel
  have hwith : (compress 3 [[1], [], [2]] (start k)).1 =
      .error (.error ⟨.other, "Write compression error: Buf"⟩) := by decide +kernel
  obtain ⟨rfl, -⟩ := (compress_steady [[1], [2]]).unique hplain (replied hwithout) (by simp)
  obtain ⟨rfl, -⟩ := (compress_steady [[1], [], [2]]).unique hall (replied hwith) (by simp)
  refine ⟨turns, _, _, w₁, w', hplain, hall, rfl, rfl, fun hfine => ?_⟩
  obtain ⟨hok, -⟩ := (hneutral rfl).mpr hfine
  cases hok

/-- It is starved there and fails, and the packet is not sent, which without the empty write or
by the asynchronous writer it is. -/
theorem empty_write_starves :
    let k : Stored.Deflater := ⟨false, false, [], Stored.adlerStart, [], Stored.start⟩
    (compress 3 [[1], [2]] (⟨k, [], 0⟩ : CachedPreCompressionWriter Stored.Deflater)).1 = .ok () ∧
    (compress 3 [[1], [], [2]] (⟨k, [], 0⟩ : CachedPreCompressionWriter Stored.Deflater)).1 =
      .error (.error ⟨.other, "Write compression error: Buf"⟩) ∧
    (writeEach 3 [[1], [], [2]]
      (⟨k, [], ()⟩ : AsyncCachedPreCompressionWriter Stored.Deflater Unit)).1 = .ok () := by
  refine ⟨?_, ?_, ?_⟩ <;> decide +kernel

end Empty

/-! ### The payload -/

section Payload
variable {pending : κ → Bytes}

/-- A flush that succeeds ends with the call in which the compressor says it has finished, and
leaves no room behind what is written. -/
theorem flush_last {turns : Nat} {w w' : CachedPreCompressionWriter κ} (hw : w.written ≤ w.buffer.length)
    (hok : flush turns w = (.ok (), w')) :
    w'.written = w'.buffer.length ∧ ∃ v : CachedPreCompressionWriter κ,
      (Deflate.deflate v.state [] (v.buffer.length - v.written) .finish).1.status = .ok .streamEnd ∧
      w'.state = (Deflate.deflate v.state [] (v.buffer.length - v.written) .finish).2 := by
  rw [flush_eq] at hok
  obtain ⟨v, hreach, hexit⟩ := Turn.exits_iff.mp (Turn.run_ok hok)
  have hroom : v.written < v.buffer.length :=
    hreach.holds (I := fun v => v.written < v.buffer.length) flushTurn_room (flushEntry_room hw)
  have hwritten := Nat.le_of_lt hroom
  rcases hcall : Deflate.deflate v.state [] (v.buffer.length - v.written) .finish with ⟨result, state⟩
  rcases flushTurn_cases hwritten hcall
      with ⟨err, -, hturn⟩ | ⟨status, hstatus, ⟨rfl, hturn⟩ | ⟨-, hturn⟩⟩
  · cases hturn.symm.trans hexit
  · cases hturn.symm.trans hexit
    refine ⟨?_, v, by rw [hcall]; exact hstatus, by rw [hcall]; rfl⟩
    rw [List.length_take, Nat.min_eq_left]
    · exact written_le_overwrite _ hwritten
  · cases hturn.symm.trans hexit

/-- **What `finish` returns is what the compressor wrote**, all of it, with its length. -/
theorem finish_outputs (hbounded : Deflate.Bounded κ) (hdrains : Deflate.Drains pending)
    {turns : Nat} {k : κ} {writes : List Bytes} {w' : CachedPreCompressionWriter (Recorded κ)}
    (hok : compress turns writes (start k) = (.ok (), w')) :
    finish w' = ((outputs w'.state.calls).length, outputs w'.state.calls) ∧
      pending w'.state.state = [] := by
  obtain ⟨_, w₁, heach, hflush⟩ := ok_of_bind hok
  have htracing := Recorded.tracing hbounded
  have hw₁ := (emits htracing).each (Compressed.fresh htracing ⟨k, []⟩) heach
  obtain ⟨⟨-, hfront⟩, -⟩ := flush_ok htracing hw₁ hflush
  obtain ⟨hfull, v, hend, hstate⟩ := flush_last hw₁.1 hflush
  constructor
  · rw [hfull, List.take_length] at hfront
    rw [finish, hfront]
  · rw [hstate]
    exact hdrains (Prod.ext rfl rfl) hend

end Payload

end CachedPreCompressionWriter

end Protocraft
