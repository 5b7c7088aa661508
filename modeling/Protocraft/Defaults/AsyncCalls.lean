import Protocraft.Defaults.AsyncReturns
import Protocraft.Defaults.Compression

/-! The calls that are made of polls.

`async_write` and `async_flush` poll until they are through, again and again where they are told to
wait. So what every poll keeps they keep (`TokioWriter.emits`), and `async_flush` succeeds with a
`poll_flush` that does (`TokioWriter.flush_ok`). -/
namespace Protocraft
open Protocraft.Stream

/-- The polls of a writer, each with a number of turns for its loop. -/
class PollWriter (ω : Type) where
  pollWrite : Nat → Bytes → ω → Option (PollIo Nat × ω)
  pollFlush : Nat → ω → Option (PollIo Unit × ω)

instance {κ ω : Type} [InPlace κ] [AsyncWrite ω] : PollWriter (AsyncStaged κ ω) where
  pollWrite turns buf := Turn.loop (AsyncStaged.pollWriteTurn buf) turns
  pollFlush := Turn.loop AsyncStaged.pollFlushTurn

namespace AsyncDefaultWriter
variable {ω : Type} [AsyncWrite ω]

def pollWrite (turns : Nat) (buf : Bytes) :
    AsyncDefaultWriter ω → Option (PollIo Nat × AsyncDefaultWriter ω)
  | standard b => (PollWriter.pollWrite turns buf b).map fun (reply, b') => (reply, standard b')
  | encrypt e => (PollWriter.pollWrite turns buf e).map fun (reply, e') => (reply, encrypt e')

def pollFlush (turns : Nat) : AsyncDefaultWriter ω → Option (PollIo Unit × AsyncDefaultWriter ω)
  | standard b => (PollWriter.pollFlush turns b).map fun (reply, b') => (reply, standard b')
  | encrypt e => (PollWriter.pollFlush turns e).map fun (reply, e') => (reply, encrypt e')

instance : PollWriter (AsyncDefaultWriter ω) := ⟨pollWrite, pollFlush⟩

omit [AsyncWrite ω] in
/-- A poll of what is inside, put back behind its constructor. -/
theorem polled_inner {α σ : Type} {inside : σ → AsyncDefaultWriter ω} {poll : Option (PollIo α × σ)}
    {reply : PollIo α} {w' : AsyncDefaultWriter ω}
    (h : (poll.map fun (reply, s') => (reply, inside s')) = some (reply, w')) :
    ∃ s', poll = some (reply, s') ∧ w' = inside s' := by
  obtain ⟨⟨reply', s'⟩, hpoll, heq⟩ := Option.map_eq_some_iff.mp h
  cases heq
  exact ⟨s', hpoll, rfl⟩

theorem polls_write {turns : Nat} {buf : Bytes} {w w' : AsyncDefaultWriter ω} {reply : PollIo Nat}
    (h : PollWriter.pollWrite turns buf w = some (reply, w')) : polls.write buf w reply w' := by
  cases w with
  | standard b =>
    obtain ⟨b', hpoll, rfl⟩ := polled_inner h
    exact ⟨turns, hpoll⟩
  | encrypt e =>
    obtain ⟨e', hpoll, rfl⟩ := polled_inner h
    exact ⟨turns, hpoll⟩

theorem polls_flush {turns : Nat} {w w' : AsyncDefaultWriter ω} {reply : PollIo Unit}
    (h : PollWriter.pollFlush turns w = some (reply, w')) : polls.flush w reply w' := by
  cases w with
  | standard b =>
    obtain ⟨b', hpoll, rfl⟩ := polled_inner h
    exact ⟨turns, hpoll⟩
  | encrypt e =>
    obtain ⟨e', hpoll, rfl⟩ := polled_inner h
    exact ⟨turns, hpoll⟩

end AsyncDefaultWriter

/-- A sink of all that comes behind the payload. -/
instance {ω : Type} [PollWriter ω] : PollWriter (AsyncCachedCompressionWriter ω) where
  pollWrite _ buf w := some (.ready (.ok buf.length), w)
  pollFlush turns w := (PollWriter.pollFlush turns w.writer).map fun (reply, writer) => (reply, ⟨writer⟩)

/-! ### Calls -/

/-- What `write_all` fails with when a write takes nothing. -/
def writeZero : IoError := ⟨.writeZero, "write zero"⟩

section Calls
variable {ω : Type} [PollWriter ω]

/-- A poll of `write_all`, with what is left of the data. -/
def asyncWriteAllTurn (turns : Nat) (t : Bytes × ω) : Turn (Bytes × ω) (Except (Stop IoError) Unit) :=
  let (data, w) := t
  if data = [] then .exit (.ok ()) t
  else match PollWriter.pollWrite turns data w with
    | none => .exit (.error .unfinished) t
    | some (.pending, w) => .again (data, w)
    | some (.ready (.error e), w) => .exit (.error (.error e)) (data, w)
    | some (.ready (.ok n), w) =>
      if n = 0 then .exit (.error (.error writeZero)) (data, w) else .again (data.drop n, w)

def asyncWriteAll (turns : Nat) (data : Bytes) : Action (Stop IoError) ω Unit :=
  borrowing (fun w => (data, w)) (fun t _ => t.2) (Turn.run (asyncWriteAllTurn turns) turns)

def asyncFlushTurn (turns : Nat) (w : ω) : Turn ω (Except (Stop IoError) Unit) :=
  match PollWriter.pollFlush turns w with
  | none => .exit (.error .unfinished) w
  | some (.pending, w) => .again w
  | some (.ready (.error e), w) => .exit (.error (.error e)) w
  | some (.ready (.ok ()), w) => .exit (.ok ()) w

def asyncFlush (turns : Nat) : Action (Stop IoError) ω Unit := Turn.run (asyncFlushTurn turns) turns

/-- `E w bytes`: writer `w` has been given `bytes`, by polls that were ready or not. -/
structure Polled (E : ω → Bytes → Prop) : Prop where
  write : ∀ {turns w w' buf reply bytes}, E w bytes →
    PollWriter.pollWrite turns buf w = some (reply, w') →
    E w' (bytes ++ buf.take reply.accepted)
  flush : ∀ {turns w w' reply bytes}, E w bytes →
    PollWriter.pollFlush turns w = some (reply, w') → E w' bytes

variable {E : ω → Bytes → Prop}

/-- A poll of `write_all` takes some of the data, or is the last. -/
theorem asyncWriteAllTurn_leads (h : Polled E) (turns : Nat) {data bytes done : Bytes} {t : Bytes × ω}
    (hdone : done ++ t.1 = data) (ht : E t.2 (bytes ++ done)) :
    (asyncWriteAllTurn turns t).Leads (fun t' => ∃ done, done ++ t'.1 = data ∧ E t'.2 (bytes ++ done))
      (fun reply t' => reply = .ok () → E t'.2 (bytes ++ data)) := by
  obtain ⟨left, w⟩ := t
  simp only [asyncWriteAllTurn]
  split
  next hnil =>
    subst hdone
    intro _
    rwa [hnil, List.append_nil]
  next =>
    split
    next => exact fun he => nomatch he
    next w' hpoll =>
      have hkept := h.write ht hpoll
      exact ⟨done, hdone, by simpa [PollIo.accepted] using hkept⟩
    next => exact fun he => nomatch he
    next n w' hpoll =>
      have hkept := h.write ht hpoll
      split
      · exact fun he => nomatch he
      · refine ⟨done ++ left.take n, ?_, ?_⟩
        · rw [List.append_assoc, List.take_append_drop]
          exact hdone
        · rwa [List.append_assoc] at hkept

/-- A call that succeeds has written all of the data. -/
theorem asyncWriteAll_ok (h : Polled E) {turns : Nat} {data bytes : Bytes} {w w' : ω} (hw : E w bytes)
    (hok : asyncWriteAll turns data w = (.ok (), w')) : E w' (bytes ++ data) := by
  obtain ⟨⟨left, v⟩, hrun, rfl⟩ := ok_of_borrowing hok
  refine Turn.Exits.spec (I := fun t => ∃ done, done ++ t.1 = data ∧ E t.2 (bytes ++ done))
    (Q := fun reply t => reply = .ok () → E t.2 (bytes ++ data)) ?_ ⟨[], rfl, by rwa [List.append_nil]⟩
    (Turn.run_ok hrun) rfl
  intro t ht
  obtain ⟨done, hdone, ht⟩ := ht
  exact asyncWriteAllTurn_leads h turns hdone ht

/-- A flush that succeeds ends in a poll that does. -/
theorem asyncFlush_ok (h : Polled E) {turns : Nat} {bytes : Bytes} {w w' : ω} (hw : E w bytes)
    (hok : asyncFlush turns w = (.ok (), w')) :
    ∃ v, E v bytes ∧ PollWriter.pollFlush turns v = some (.ready (.ok ()), w') := by
  refine Turn.Exits.spec (I := fun v => E v bytes)
    (Q := fun reply w' => reply = .ok () →
      ∃ v, E v bytes ∧ PollWriter.pollFlush turns v = some (.ready (.ok ()), w'))
    ?_ hw (Turn.run_ok hok) rfl
  intro v hv
  rw [asyncFlushTurn]
  split
  next => exact fun he => nomatch he
  next w' hpoll => exact h.flush hv hpoll
  next => exact fun he => nomatch he
  next w' hpoll => exact fun _ => ⟨v, hv, hpoll⟩

end Calls

/-- `TokioIo` and `FuturesIo`. -/
instance {κ ω : Type} [PollWriter ω] : Writer (TokioWriter κ ω) where
  write turns data :=
    borrowing TokioWriter.writer (fun writer w => {w with writer := writer}) (asyncWriteAll turns data)
  flush turns := borrowing TokioWriter.writer (fun writer w => {w with writer := writer})
    (asyncFlush turns)

instance {κ ω : Type} [PollWriter ω] :
    CompressionWriter (TokioWriter κ (AsyncCachedCompressionWriter ω)) where
  initializeWith turns payload :=
    borrowing (fun w => w.writer.writer) (fun writer w => {w with writer := ⟨writer⟩})
      (asyncWriteAll turns payload)

section Emits
variable {κ ω : Type} [PollWriter ω] {E : ω → Bytes → Prop}

theorem TokioWriter.flush_ok (h : Polled E) {turns : Nat} {bytes : Bytes} {w w' : TokioWriter κ ω}
    (hw : E w.writer bytes) (hok : Writer.flush turns w = (.ok (), w')) :
    ∃ v, E v bytes ∧ PollWriter.pollFlush turns v = some (.ready (.ok ()), w'.writer) := by
  obtain ⟨u, hflush, rfl⟩ := ok_of_borrowing hok
  exact asyncFlush_ok h hw hflush

theorem TokioWriter.emits (h : Polled E) :
    Emits (fun (w : TokioWriter κ ω) bytes => E w.writer bytes) where
  write := by
    intro turns w w' bytes data hw hok
    obtain ⟨u, hwrite, rfl⟩ := ok_of_borrowing hok
    exact asyncWriteAll_ok h hw hwrite
  flush := by
    intro turns w w' bytes hw hok
    obtain ⟨v, hv, hpoll⟩ := TokioWriter.flush_ok h hw hok
    exact h.flush hv hpoll

/-- What is written behind the payload goes nowhere. -/
theorem AsyncCachedCompressionWriter.polled (h : Polled E) (bytes : Bytes) :
    Polled (fun (w : AsyncCachedCompressionWriter ω) (_ : Bytes) => E w.writer bytes) where
  write := by
    intro turns w w' buf reply _ hw hpoll
    cases hpoll
    exact hw
  flush := by
    intro turns w w' reply _ hw hpoll
    obtain ⟨⟨reply, writer⟩, hinner, heq⟩ := Option.map_eq_some_iff.mp hpoll
    cases heq
    exact h.flush hw hinner

end Emits

end Protocraft
