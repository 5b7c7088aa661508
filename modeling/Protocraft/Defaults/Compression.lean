import Protocraft.Defaults.Writer
import Protocraft.Stream.Codec
import Protocraft.Traits

/-! The compressing writers.

The synchronous one lets the compressor keep what it likes until the flush, which
finishes the stream: what `finish` returns then is a whole compressed stream of the
bytes written (`CachedPreCompressionWriter.flush_ok`). The asynchronous one has every
call flushed into a scratch buffer and stops as soon as the compressor has used its
data, so the compressor may still hold output when `async_finish` returns the buffer: the
last call is the one after which nobody asks for what did not fit
(`AsyncCachedPreCompressionWriter.Closed`). -/
namespace Protocraft
open Protocraft.Stream

/-! ### The synchronous one -/

/-- The front `written` bytes of the buffer are compressed output, the others room. -/
structure CachedPreCompressionWriter (κ : Type) where
  state : κ
  buffer : Bytes
  written : Nat

/-- `Vec::resize`. -/
def resize (n : Nat) (buffer : Bytes) : Bytes :=
  buffer.take n ++ List.replicate (n - buffer.length) 0

def overwrite (offset : Nat) (bytes buffer : Bytes) : Bytes :=
  buffer.take offset ++ (bytes ++ buffer.drop (offset + bytes.length))

namespace CachedPreCompressionWriter
variable {κ : Type} [Deflate κ]

/-- Deflates into the room in the buffer, without counting the output as written. -/
def deflate (w : CachedPreCompressionWriter κ) (data : Bytes) (flush : MZFlush) :
    StreamResult × CachedPreCompressionWriter κ :=
  let (result, state) := Deflate.deflate w.state data (w.buffer.length - w.written) flush
  (result, ⟨state, overwrite w.written result.written w.buffer, w.written⟩)

/-- One turn of the loop in `write`, with the number of bytes consumed so far. -/
def writeTurn (data : Bytes) (t : CachedPreCompressionWriter κ × Nat) :
    Turn (CachedPreCompressionWriter κ × Nat) (Except (Stop IoError) Unit) :=
  let (w, consumed) := t
  if data.length < consumed ∨ w.buffer.length < w.written then .exit (.error .panic) t
  else match w.deflate (data.drop consumed) .none with
    | (⟨_, _, .error err⟩, w) =>
      .exit (.error (.error ⟨.other, "Write compression error: " ++ err.debug⟩)) (w, consumed)
    | (⟨bytesConsumed, out, .ok _⟩, w) =>
      let consumed := consumed + bytesConsumed
      let w := {w with written := w.written + out.length}
      if consumed = data.length then .exit (.ok ()) (w, consumed)
      -- The subtraction of two underflows.
      else if data.length - consumed < 2 then .exit (.error .panic) (w, consumed)
      else
        let guess := max 2 (data.length - consumed - 2)
        if w.buffer.length - w.written < guess then
          .again ({w with buffer := resize (w.buffer.length + guess) w.buffer}, consumed)
        else .again (w, consumed)

def write (turns : Nat) (data : Bytes) : Action (Stop IoError) (CachedPreCompressionWriter κ) Unit :=
  borrowing
    (fun w => ({w with buffer := resize (w.buffer.length + max 2 (data.length / 2)) w.buffer}, 0))
    (fun t _ => t.1)
    (Turn.run (writeTurn data) turns)

def flushTurn (w : CachedPreCompressionWriter κ) :
    Turn (CachedPreCompressionWriter κ) (Except (Stop IoError) Unit) :=
  if w.buffer.length < w.written then .exit (.error .panic) w
  else match w.deflate [] .finish with
    | (⟨_, _, .error err⟩, w) =>
      .exit (.error (.error ⟨.other, "Flush compression error: " ++ err.debug⟩)) w
    | (⟨_, out, .ok status⟩, w) =>
      let w := {w with written := w.written + out.length}
      if status = .streamEnd then .exit (.ok ()) {w with buffer := w.buffer.take w.written}
      else .again {w with buffer := resize (w.buffer.length * 2) w.buffer}

def flush (turns : Nat) : Action (Stop IoError) (CachedPreCompressionWriter κ) Unit := fun w =>
  Turn.run flushTurn turns
    (if w.buffer.length = w.written then {w with buffer := resize (max 2 (w.buffer.length * 2)) w.buffer}
    else w)

def finish (w : CachedPreCompressionWriter κ) : Nat × Bytes := (w.buffer.length, w.buffer)

instance : PreCompressionWriter (CachedPreCompressionWriter κ) where
  write := write
  flush := flush
  finish := finish

theorem steady : Writer.Steady (CachedPreCompressionWriter κ) where
  write data := by
    show Steady fun turns => write turns data
    unfold write
    exact (Steady.run (writeTurn data)).borrowing
  flush _ _ _ _ h hdone := Steady.run flushTurn h hdone

end CachedPreCompressionWriter

/-- Takes its payload whole, and nothing of what is written to it after that. -/
structure CachedCompressionWriter (ω : Type) where
  writer : ω

instance {ω : Type} [Write ω] : CompressionWriter (CachedCompressionWriter ω) where
  write _ _ := pure ()
  flush turns := borrowing CachedCompressionWriter.writer (fun w _ => ⟨w⟩) (Writer.flush turns)
  initializeWith turns payload :=
    borrowing CachedCompressionWriter.writer (fun w _ => ⟨w⟩) (Writer.write turns payload)

instance {κ ω : Type} [Deflate κ] : CompressableWriter (DefaultWriter κ ω)
    (CachedPreCompressionWriter κ) (CachedCompressionWriter (DefaultWriter κ ω)) where
  preCompressionWriter w := ⟨Deflate.reset w.compressionState, [], 0⟩
  preCompressed p w := {w with compressionState := p.state}
  withCompression w := ⟨w⟩
  compressed c _ := c.writer

/-! ### The asynchronous one -/

/-- The scratch buffer of `async_write`. -/
def scratch : Nat := 512

/-- The tokio and the futures version are the same but for the names of the traits. -/
structure AsyncCachedPreCompressionWriter (κ ω : Type) where
  state : κ
  buffer : Bytes
  cachedWriter : ω

namespace AsyncCachedPreCompressionWriter
variable {κ ω : Type} [Deflate κ]

/-- One turn of the loop in `async_write`, with the offset reached in the data. -/
def asyncWriteTurn (data : Bytes) (t : AsyncCachedPreCompressionWriter κ ω × Nat) :
    Turn (AsyncCachedPreCompressionWriter κ ω × Nat) (Except (Stop IoError) Unit) :=
  let (w, offset) := t
  if data.length < offset then .exit (.error .panic) t
  else match Deflate.deflate w.state (data.drop offset) scratch .sync with
    | (⟨_, _, .error err⟩, state) =>
      .exit (.error (.error ⟨.other, "Compression error: " ++ err.debug⟩))
        ({w with state := state}, offset)
    | (⟨bytesConsumed, out, .ok _⟩, state) =>
      let w := {w with state := state, buffer := w.buffer ++ out}
      let offset := offset + bytesConsumed
      if offset = data.length then .exit (.ok ()) (w, offset) else .again (w, offset)

def asyncWrite (turns : Nat) (data : Bytes) :
    Action (Stop IoError) (AsyncCachedPreCompressionWriter κ ω) Unit :=
  borrowing (fun w => (w, 0)) (fun t _ => t.1) (Turn.run (asyncWriteTurn data) turns)

/-- Left to `asyncFinish`. -/
def asyncFlush : Action (Stop IoError) (AsyncCachedPreCompressionWriter κ ω) Unit := pure ()

def asyncFinish (w : AsyncCachedPreCompressionWriter κ ω) : Nat × Bytes := (w.buffer.length, w.buffer)

instance : PreCompressionWriter (AsyncCachedPreCompressionWriter κ ω) where
  write := asyncWrite
  flush _ := asyncFlush
  finish := asyncFinish

theorem steady : Writer.Steady (AsyncCachedPreCompressionWriter κ ω) where
  write data := by
    show Steady fun turns => asyncWrite turns data
    unfold asyncWrite
    exact (Steady.run (asyncWriteTurn data)).borrowing
  flush := Steady.const _

end AsyncCachedPreCompressionWriter

/-- And `FuturesWriter`. -/
structure TokioWriter (κ ω : Type) where
  state : κ
  writer : ω

/-- A sink: the payload goes straight to the writer inside. -/
structure AsyncCachedCompressionWriter (ω : Type) where
  writer : ω

instance {κ ω : Type} [Deflate κ] : CompressableWriter (TokioWriter κ ω)
    (AsyncCachedPreCompressionWriter κ ω) (TokioWriter κ (AsyncCachedCompressionWriter ω)) where
  preCompressionWriter w := ⟨Deflate.reset w.state, [], w.writer⟩
  preCompressed p _ := ⟨p.state, p.cachedWriter⟩
  withCompression w := ⟨w.state, ⟨w.writer⟩⟩
  compressed c _ := ⟨c.state, c.writer.writer⟩

/-! ### What the synchronous one has compressed -/

namespace CachedPreCompressionWriter
variable {κ : Type} [Deflate κ] {Sent : κ → Bytes → Bytes → Prop} {Complete : Bytes → Bytes → Prop}

/-- The written part of the buffer is the output for `input`. -/
def Compressed (Sent : κ → Bytes → Bytes → Prop) (w : CachedPreCompressionWriter κ) (input : Bytes) :
    Prop :=
  w.written ≤ w.buffer.length ∧ Sent w.state (w.buffer.take w.written) input

theorem take_resize {n m : Nat} {buffer : Bytes} (hnm : n ≤ m) (hn : n ≤ buffer.length) :
    (resize m buffer).take n = buffer.take n := by
  rw [resize, List.take_append_of_le_length (by rw [List.length_take]; omega), List.take_take,
    Nat.min_eq_left hnm]

theorem length_resize (n : Nat) (buffer : Bytes) : (resize n buffer).length = n := by
  rw [resize, List.length_append, List.length_take, List.length_replicate]
  omega

theorem resize_self (buffer : Bytes) : resize buffer.length buffer = buffer := by
  rw [resize, List.take_length, Nat.sub_self, List.replicate_zero, List.append_nil]

theorem written_le_overwrite {offset : Nat} (bytes : Bytes) {buffer : Bytes}
    (hoffset : offset ≤ buffer.length) :
    offset + bytes.length ≤ (overwrite offset bytes buffer).length := by
  simp only [overwrite, List.length_append, List.length_take, List.length_drop]
  omega

theorem length_le_overwrite {offset : Nat} (bytes : Bytes) {buffer : Bytes}
    (hoffset : offset ≤ buffer.length) :
    buffer.length ≤ (overwrite offset bytes buffer).length := by
  simp only [overwrite, List.length_append, List.length_take, List.length_drop]
  omega

theorem take_overwrite {offset : Nat} (bytes : Bytes) {buffer : Bytes}
    (hoffset : offset ≤ buffer.length) :
    (overwrite offset bytes buffer).take (offset + bytes.length) = buffer.take offset ++ bytes := by
  rw [overwrite, ← List.append_assoc]
  apply List.take_left'
  rw [List.length_append, List.length_take, Nat.min_eq_left hoffset]

/-- The writer after a call of the compressor, its output counted. -/
def counted (w : CachedPreCompressionWriter κ) (result : StreamResult) (state : κ) :
    CachedPreCompressionWriter κ :=
  ⟨state, overwrite w.written result.written w.buffer, w.written + result.written.length⟩

/-- All that a turn of the loop in `write` does. -/
theorem writeTurn_cases {data : Bytes} {w : CachedPreCompressionWriter κ} {consumed : Nat}
    (hconsumed : consumed ≤ data.length) (hwritten : w.written ≤ w.buffer.length) {result : StreamResult}
    {state : κ}
    (hcall : Deflate.deflate w.state (data.drop consumed) (w.buffer.length - w.written) .none =
      (result, state)) :
    (∃ err, result.status = .error err ∧ writeTurn data (w, consumed) =
      .exit (.error (.error ⟨.other, "Write compression error: " ++ err.debug⟩))
        (⟨state, overwrite w.written result.written w.buffer, w.written⟩, consumed)) ∨
    ∃ status, result.status = .ok status ∧
      (consumed + result.bytesConsumed = data.length ∧ writeTurn data (w, consumed) =
          .exit (.ok ()) (w.counted result state, data.length) ∨
        consumed + result.bytesConsumed ≠ data.length ∧
          data.length < consumed + result.bytesConsumed + 2 ∧ writeTurn data (w, consumed) =
          .exit (.error .panic) (w.counted result state, consumed + result.bytesConsumed) ∨
        consumed + result.bytesConsumed + 2 ≤ data.length ∧
          ∃ n, (w.counted result state).buffer.length ≤ n ∧ (w.counted result state).written + 2 ≤ n ∧
            writeTurn data (w, consumed) = .again ({w.counted result state with
              buffer := resize n (w.counted result state).buffer},
              consumed + result.bytesConsumed)) := by
  have hrange : ¬(data.length < consumed ∨ w.buffer.length < w.written) :=
    not_or.mpr ⟨Nat.not_lt.mpr hconsumed, Nat.not_lt.mpr hwritten⟩
  obtain ⟨bytesConsumed, out, err | status⟩ := result
  · exact .inl ⟨err, rfl, by simp only [writeTurn, hrange, if_false, deflate, hcall]⟩
  · refine .inr ⟨status, rfl, ?_⟩
    by_cases hall : consumed + bytesConsumed = data.length
    · exact .inl ⟨hall, by simp only [writeTurn, hrange, if_false, deflate, hcall, hall, if_true]; rfl⟩
    · by_cases hlast : data.length - (consumed + bytesConsumed) < 2
      · refine .inr (.inl ⟨hall, by dsimp only; omega, ?_⟩)
        simp only [writeTurn, hrange, if_false, deflate, hcall, hall, hlast, if_true]
        rfl
      · refine .inr (.inr ⟨by dsimp only; omega, ?_⟩)
        generalize hguess : max 2 (data.length - (consumed + bytesConsumed) - 2) = guess
        have htwo : 2 ≤ guess := hguess ▸ Nat.le_max_left _ _
        by_cases hroom : (overwrite w.written out w.buffer).length - (w.written + out.length) < guess
        · refine ⟨(overwrite w.written out w.buffer).length + guess, Nat.le_add_right _ _, ?_, ?_⟩
          · have hfront := written_le_overwrite out hwritten
            show w.written + out.length + 2 ≤ _
            omega
          · simp only [writeTurn, hrange, if_false, deflate, hcall, hall, hlast, hguess, hroom, if_true]
            rfl
        · refine ⟨(overwrite w.written out w.buffer).length, Nat.le_refl _, ?_, ?_⟩
          · show w.written + out.length + 2 ≤ _
            omega
          · simp only [writeTurn, hrange, if_false, deflate, hcall, hall, hlast, hguess, hroom,
              counted, resize_self]

omit [Deflate κ] in
/-- More room changes nothing that is written. -/
theorem Compressed.resized {w : CachedPreCompressionWriter κ} {input : Bytes}
    (h : Compressed Sent w input) {n : Nat} (hn : w.buffer.length ≤ n) :
    Compressed Sent {w with buffer := resize n w.buffer} input := by
  have hle := h.1
  refine ⟨?_, ?_⟩
  · show w.written ≤ (resize n w.buffer).length
    rw [length_resize]
    omega
  · show Sent w.state ((resize n w.buffer).take w.written) input
    rw [take_resize (by omega) hle]
    exact h.2

/-- A call that succeeds compresses on. -/
theorem Compressed.counted (h : Deflating Sent Complete) {w : CachedPreCompressionWriter κ}
    {input data : Bytes} (hw : Compressed Sent w input) {flush : MZFlush}
    {result : StreamResult} {state : κ}
    (hcall : Deflate.deflate w.state data (w.buffer.length - w.written) flush = (result, state))
    {status : MZStatus} (hok : result.status = .ok status) :
    result.bytesConsumed ≤ data.length ∧
      Compressed Sent (w.counted result state) (input ++ data.take result.bytesConsumed) ∧
      (status = .streamEnd →
        Complete ((w.counted result state).buffer.take (w.counted result state).written)
        (input ++ data.take result.bytesConsumed)) := by
  obtain ⟨hle, hsent⟩ := hw
  obtain ⟨hconsumed, -, hsent', hcomplete⟩ := h.call hsent hcall hok
  have htake := take_overwrite result.written hle
  refine ⟨hconsumed, ⟨written_le_overwrite _ hle, ?_⟩, fun hend => ?_⟩
  · simp only [CachedPreCompressionWriter.counted, htake]
    exact hsent'
  · simp only [CachedPreCompressionWriter.counted, htake]
    exact hcomplete hend

theorem Compressed.writeTurn (h : Deflating Sent Complete) {w : CachedPreCompressionWriter κ}
    {input data : Bytes} {consumed : Nat} (hconsumed : consumed ≤ data.length)
    (hw : Compressed Sent w (input ++ data.take consumed)) :
    (writeTurn data (w, consumed)).Leads
      (fun t => t.2 ≤ data.length ∧ Compressed Sent t.1 (input ++ data.take t.2))
      (fun reply t => reply = .ok () → Compressed Sent t.1 (input ++ data)) := by
  rcases hcall : Deflate.deflate w.state (data.drop consumed) (w.buffer.length - w.written) .none
      with ⟨result, state⟩
  rcases writeTurn_cases hconsumed hw.1 hcall with ⟨err, -, hturn⟩ | ⟨status, hok, hturn⟩
  · rw [hturn]
    exact fun he => nomatch he
  · obtain ⟨hmore, hw', -⟩ := hw.counted h hcall hok
    rw [List.append_assoc, ← List.take_add] at hw'
    rcases hturn with ⟨hall, hturn⟩ | ⟨-, -, hturn⟩ | ⟨hleft, n, hn, -, hturn⟩ <;> rw [hturn]
    · rw [hall, List.take_length] at hw'
      exact fun _ => hw'
    · exact fun he => nomatch he
    · exact ⟨by dsimp only; omega, hw'.resized hn⟩

/-- **A write that succeeds has compressed all of its data.** -/
theorem write_ok (h : Deflating Sent Complete) {turns : Nat} {w w' : CachedPreCompressionWriter κ}
    {input data : Bytes} (hw : Compressed Sent w input)
    (hok : write turns data w = (.ok (), w')) : Compressed Sent w' (input ++ data) := by
  have hfst := congrArg Prod.fst hok
  have hsnd := congrArg Prod.snd hok
  simp only [write, borrowing_apply] at hfst hsnd
  have hexit := Turn.run_ok (replied hfst)
  rw [← hsnd]
  refine Turn.Exits.spec (I := fun t => t.2 ≤ data.length ∧ Compressed Sent t.1 (input ++ data.take t.2))
    (Q := fun reply t => reply = .ok () → Compressed Sent t.1 (input ++ data))
    (fun ht => ht.2.writeTurn h ht.1) ?_ hexit rfl
  exact ⟨Nat.zero_le _, by simpa using hw.resized (Nat.le_add_right _ _)⟩

/-- All that a turn of the loop in `flush` does. -/
theorem flushTurn_cases {w : CachedPreCompressionWriter κ} (hwritten : w.written ≤ w.buffer.length)
    {result : StreamResult} {state : κ}
    (hcall : Deflate.deflate w.state [] (w.buffer.length - w.written) .finish = (result, state)) :
    (∃ err, result.status = .error err ∧ flushTurn w =
      .exit (.error (.error ⟨.other, "Flush compression error: " ++ err.debug⟩))
        ⟨state, overwrite w.written result.written w.buffer, w.written⟩) ∨
    ∃ status, result.status = .ok status ∧
      (status = .streamEnd ∧ flushTurn w = .exit (.ok ()) {w.counted result state with
          buffer := (w.counted result state).buffer.take (w.counted result state).written} ∨
        status ≠ .streamEnd ∧ flushTurn w = .again {w.counted result state with
          buffer := resize ((w.counted result state).buffer.length * 2)
            (w.counted result state).buffer}) := by
  have hrange := Nat.not_lt.mpr hwritten
  obtain ⟨bytesConsumed, out, err | status⟩ := result
  · exact .inl ⟨err, rfl, by simp only [flushTurn, hrange, if_false, deflate, hcall]⟩
  · refine .inr ⟨status, rfl, ?_⟩
    by_cases hend : status = .streamEnd
    · exact .inl ⟨hend, by simp only [flushTurn, hrange, if_false, deflate, hcall, hend, if_true]; rfl⟩
    · exact .inr ⟨hend, by simp only [flushTurn, hrange, deflate, hcall, hend, if_false]; rfl⟩

theorem Compressed.flushTurn (h : Deflating Sent Complete) {w : CachedPreCompressionWriter κ}
    {input : Bytes} (hw : Compressed Sent w input) :
    (flushTurn w).Leads (fun w' => Compressed Sent w' input)
      (fun reply w' => reply = .ok () → Compressed Sent w' input ∧ Complete w'.buffer input) := by
  rcases hcall : Deflate.deflate w.state [] (w.buffer.length - w.written) .finish with ⟨result, state⟩
  rcases flushTurn_cases hw.1 hcall with ⟨err, -, hturn⟩ | ⟨status, hok, hturn⟩
  · rw [hturn]
    exact fun he => nomatch he
  · obtain ⟨-, hw', hcomplete⟩ := hw.counted h hcall hok
    rw [List.take_nil, List.append_nil] at hw' hcomplete
    rcases hturn with ⟨hend, hturn⟩ | ⟨-, hturn⟩ <;> rw [hturn]
    · refine fun _ => ⟨⟨?_, ?_⟩, hcomplete hend⟩
      · have := hw'.1
        simp only [List.length_take]
        omega
      · simpa [List.take_take] using hw'.2
    · refine hw'.resized ?_
      omega

/-- **A flush that succeeds leaves a whole compressed stream** in the buffer, and nothing
else. -/
theorem flush_ok (h : Deflating Sent Complete) {turns : Nat} {w w' : CachedPreCompressionWriter κ}
    {input : Bytes} (hw : Compressed Sent w input) (hok : flush turns w = (.ok (), w')) :
    Compressed Sent w' input ∧ Complete w'.buffer input := by
  refine Turn.Exits.spec (I := fun v => Compressed Sent v input)
    (Q := fun reply v => reply = .ok () → Compressed Sent v input ∧ Complete v.buffer input)
    (fun hv => hv.flushTurn h) ?_ (Turn.run_ok hok) rfl
  split
  · refine hw.resized ?_
    omega
  · exact hw

theorem emits (h : Deflating Sent Complete) :
    Emits (fun (w : CachedPreCompressionWriter κ) input => Compressed Sent w input) where
  write hw hok := write_ok h hw hok
  flush hw hok := (flush_ok h hw hok).1

/-- The writer a compressed packet starts with. -/
theorem Compressed.fresh (h : Deflating Sent Complete) (k : κ) :
    Compressed Sent ⟨Deflate.reset k, [], 0⟩ [] :=
  ⟨Nat.le_refl _, h.reset k⟩

end CachedPreCompressionWriter

/-! ### What the asynchronous one has compressed -/

namespace AsyncCachedPreCompressionWriter
variable {κ ω : Type} [Deflate κ] {Sent : κ → Bytes → Bytes → Prop} {pending : κ → Bytes}
  {inflated : Bytes → Bytes}

/-- The compressor has used `input`, and what its calls have written is in the buffer. -/
structure Sends (Sent : κ → Bytes → Bytes → Prop) (input : Bytes)
    (w : AsyncCachedPreCompressionWriter (Recorded κ) ω) : Prop where
  sent : Sent w.state.state w.buffer input
  recorded : outputs w.state.calls = w.buffer

/-- The last call used up what was left of `input`, with the scratch buffer for its output. -/
def Closed (Sent : κ → Bytes → Bytes → Prop) (input : Bytes)
    (w : AsyncCachedPreCompressionWriter (Recorded κ) ω) : Prop :=
  ∃ earlier call, w.state.calls = earlier ++ [call] ∧ call.room = scratch ∧
    call.Closes Sent (outputs earlier) input

/-- What a turn does: it goes on with less data left, or with less output pending, or it
exits with all data used. -/
theorem asyncWriteTurn_sent (h : SyncFlushing Sent pending inflated)
    {w : AsyncCachedPreCompressionWriter (Recorded κ) ω} {input data : Bytes} {offset : Nat}
    (hoffset : offset ≤ data.length) (hw : Sends Sent (input ++ data.take offset) w) : ∃ w' offset',
      (asyncWriteTurn data (w, offset) =
        if offset' = data.length then .exit (.ok ()) (w', offset') else .again (w', offset')) ∧
      offset' ≤ data.length ∧ Sends Sent (input ++ data.take offset') w' ∧
      (offset < offset' ∨ offset = offset' ∧
        (offset' < data.length → (pending w'.state.state).length < (pending w.state.state).length)) ∧
      (offset' = data.length → Closed Sent (input ++ data) w') := by
  have hscratch : 0 < scratch := by decide
  obtain ⟨status, bytesConsumed, out, k, hcall, hconsumed, hsent, hless, -⟩ :=
    h.call (data.drop offset) hscratch hw.sent
  have hrecorded := Recorded.deflate hcall
  rw [List.length_drop] at hconsumed
  rw [List.append_assoc, ← List.take_add] at hsent
  let call : DeflateCall κ :=
    ⟨w.state.state, data.drop offset, scratch, .sync, ⟨bytesConsumed, out, .ok status⟩⟩
  refine ⟨⟨⟨k, w.state.calls ++ [call]⟩, w.buffer ++ out, w.cachedWriter⟩, offset + bytesConsumed,
    ?_, by omega, ⟨hsent, ?_⟩, ?_, fun hall => ⟨w.state.calls, call, rfl, rfl, ?_⟩⟩
  · simp only [asyncWriteTurn, Nat.not_lt.mpr hoffset, if_false, hrecorded, call]
  · rw [outputs_append, hw.recorded]
  · rcases Nat.eq_zero_or_pos bytesConsumed with hnone | hsome
    · refine .inr ⟨by omega, fun hlt => hless ?_ hnone⟩
      rw [Ne, List.drop_eq_nil_iff]
      omega
    · exact .inl (by omega)
  · refine ⟨by rw [hcall], rfl, hscratch, ⟨_, by rw [hw.recorded]; exact hw.sent, ?_⟩, ?_⟩
    · rw [List.append_assoc, List.take_append_drop]
    · show bytesConsumed = (data.drop offset).length
      rw [List.length_drop]
      omega

/-- On the way through `data`, what is used of it is compressed. -/
structure Sending (Sent : κ → Bytes → Bytes → Prop) (input data : Bytes)
    (t : AsyncCachedPreCompressionWriter (Recorded κ) ω × Nat) : Prop where
  offset : t.2 ≤ data.length
  sends : Sends Sent (input ++ data.take t.2) t.1

/-- Less data left, or as much left and less output pending. -/
def left (pending : κ → Bytes) (data : Bytes)
    (t : AsyncCachedPreCompressionWriter (Recorded κ) ω × Nat) : Nat × Nat :=
  (data.length - t.2, (pending t.1.state.state).length)

theorem Sending.turn (h : SyncFlushing Sent pending inflated) {input data : Bytes}
    {t : AsyncCachedPreCompressionWriter (Recorded κ) ω × Nat} (ht : Sending Sent input data t) :
    (asyncWriteTurn data t).Leads
      (fun t' => Sending Sent input data t' ∧
        Prod.Lex (· < ·) (· < ·) (left pending data t') (left pending data t))
      (fun reply t' => reply = .ok () ∧ Sends Sent (input ++ data) t'.1 ∧
        Closed Sent (input ++ data) t'.1) := by
  obtain ⟨w, offset⟩ := t
  obtain ⟨w', offset', hturn, hle, hsends, hless, hclosed⟩ := asyncWriteTurn_sent h ht.offset ht.sends
  rw [hturn]
  by_cases hall : offset' = data.length
  · rw [if_pos hall]
    have hclosed' := hclosed hall
    rw [hall, List.take_length] at hsends
    exact ⟨rfl, hsends, hclosed'⟩
  · rw [if_neg hall]
    refine ⟨⟨hle, hsends⟩, ?_⟩
    obtain hlt | ⟨heq, hlt⟩ := hless
    · exact Prod.Lex.left _ _ (by dsimp only; omega)
    · subst heq
      exact Prod.Lex.right _ (hlt (by omega))

/-- **A write returns**, and the compressor has used all of its data. -/
theorem asyncWrite_sent (h : SyncFlushing Sent pending inflated)
    {w : AsyncCachedPreCompressionWriter (Recorded κ) ω} {input : Bytes} (hw : Sends Sent input w)
    (data : Bytes) : ∃ turns w', (∀ more, asyncWrite (turns + more) data w = (.ok (), w')) ∧
      Sends Sent (input ++ data) w' ∧ Closed Sent (input ++ data) w' := by
  have hwf : WellFounded (InvImage (Prod.Lex (· < ·) (· < ·))
      (left pending data : AsyncCachedPreCompressionWriter (Recorded κ) ω × Nat → Nat × Nat)) :=
    InvImage.wf _ (Prod.lex Nat.lt_wfRel Nat.lt_wfRel).wf
  have hstart : Sending Sent input data (w, 0) := ⟨Nat.zero_le _, by simpa using hw⟩
  obtain ⟨reply, t, hexits, rfl, hsends, hclosed⟩ := Turn.total hwf (fun ht => ht.turn h) hstart
  obtain ⟨turns, hrun⟩ := hexits.run
  refine ⟨turns, t.1, fun more => ?_, hsends, hclosed⟩
  rw [asyncWrite, borrowing_apply, hrun more]

/-- So do all the writes of a packet, of which there is at least the first. -/
theorem writeEach_sent (h : SyncFlushing Sent pending inflated)
    {w : AsyncCachedPreCompressionWriter (Recorded κ) ω} {input : Bytes} (hw : Sends Sent input w)
    (data : Bytes) (rest : List Bytes) :
    ∃ turns w', (∀ more, writeEach (turns + more) (data :: rest) w = (.ok (), w')) ∧
      Sends Sent (input ++ (data :: rest).flatten) w' ∧
        Closed Sent (input ++ (data :: rest).flatten) w' := by
  obtain ⟨turns₁, w₁, hfirst, hsends₁, hclosed₁⟩ := asyncWrite_sent h hw data
  rw [List.flatten_cons, ← List.append_assoc]
  induction rest generalizing w w₁ input data turns₁ with
  | nil =>
    refine ⟨turns₁, w₁, fun more => ?_, ?_, ?_⟩
    · have hwrite : Writer.write (turns₁ + more) data w = (.ok (), w₁) := hfirst more
      rw [writeEach, bind_ok hwrite]
      rfl
    · rwa [List.flatten_nil, List.append_nil]
    · rwa [List.flatten_nil, List.append_nil]
  | cons data₂ rest ih =>
    obtain ⟨turns₂, w₂, hsecond, hsends₂, hclosed₂⟩ := asyncWrite_sent h hsends₁ data₂
    obtain ⟨turns, w', hrest, hall⟩ := ih hsends₁ data₂ _ _ hsecond hsends₂ hclosed₂
    refine ⟨turns₁ + turns, w', fun more => ?_, ?_⟩
    · have hwrite : Writer.write (turns₁ + turns + more) data w = (.ok (), w₁) := by
        rw [Nat.add_assoc]
        exact hfirst _
      rw [writeEach, bind_ok hwrite, Nat.add_comm turns₁, Nat.add_assoc]
      exact hrest _
    · rwa [List.flatten_cons, ← List.append_assoc]

end AsyncCachedPreCompressionWriter

end Protocraft
