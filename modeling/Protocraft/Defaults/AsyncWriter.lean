import Protocraft.Stream.Poll
import Protocraft.Defaults.Writer

/-! The polled writers, of Tokio and of futures: their polls are the same text.

`AsyncBufferedWriter` and `AsyncEncryptionWriter` fill a buffer (`fill`) and then
write it out (`write`), remembering how far they have got; encryption in place is
on the way from the one to the other, once for each buffer. So a poll that ends in
the middle, pending or with an error, loses nothing, and the next one goes on from
there, whichever it is (`AsyncStaged.Delivering`). -/
namespace Protocraft
open Protocraft.Stream

inductive AsyncBufferedWriterState where
  | fill
  | write (offset : Nat)
  deriving DecidableEq, Repr

structure AsyncStaged (κ ω : Type) where
  encryptor : κ
  writer : ω
  buffer : Bytes
  capacity : Nat
  state : AsyncBufferedWriterState

namespace AsyncStaged
variable {κ ω : Type} [InPlace κ]

/-- The buffer encrypted in place, to be written from its first byte on. -/
def encrypt (s : AsyncStaged κ ω) : AsyncStaged κ ω :=
  {s with
    encryptor := InPlace.machine.after s.encryptor s.buffer
    buffer := InPlace.machine.output s.encryptor s.buffer
    state := .write 0}

def clear (s : AsyncStaged κ ω) : AsyncStaged κ ω := {s with buffer := [], state := .fill}

variable [AsyncWrite ω]

/-- Offers the buffer from `offset` on; `written` is what comes after its last byte. -/
def writeTurn {α : Type} (written : AsyncStaged κ ω → Turn (AsyncStaged κ ω) (PollIo α))
    (s : AsyncStaged κ ω) (offset : Nat) : Turn (AsyncStaged κ ω) (PollIo α) :=
  match AsyncWrite.pollWrite (s.buffer.drop offset) s.writer with
  | (.pending, writer) => .exit .pending {s with writer := writer}
  | (.ready (.error e), writer) => .exit (.ready (.error e)) {s with writer := writer}
  | (.ready (.ok amountWritten), writer) =>
    if offset + amountWritten = s.buffer.length then written {s with writer := writer}
    else .again {s with writer := writer, state := .write (offset + amountWritten)}

def pollWriteTurn (buf : Bytes) (s : AsyncStaged κ ω) : Turn (AsyncStaged κ ω) (PollIo Nat) :=
  match s.state with
  | .fill =>
    let capacity := s.capacity - s.buffer.length
    if 0 < capacity then
      let amountToWrite := min capacity buf.length
      .exit (.ready (.ok amountToWrite)) {s with buffer := s.buffer ++ buf.take amountToWrite}
    else .again s.encrypt
  | .write offset => writeTurn (fun s => .again s.clear) s offset

def pollFlushTurn (s : AsyncStaged κ ω) : Turn (AsyncStaged κ ω) (PollIo Unit) :=
  match s.state with
  | .fill => .again s.encrypt
  | .write offset => writeTurn (fun s => .exit (.ready (.ok ())) s.clear) s offset

/-- `poll_write` and `poll_flush`. -/
def polls : Polls (AsyncStaged κ ω) where
  write buf := Turn.Exits (pollWriteTurn buf)
  flush := Turn.Exits pollFlushTurn

variable {s : AsyncStaged κ ω}

omit [InPlace κ] in
/-- All that a turn does that offers bytes to the sink. -/
theorem writeTurn_cases {α : Type} (written : AsyncStaged κ ω → Turn (AsyncStaged κ ω) (PollIo α))
    (s : AsyncStaged κ ω) (offset : Nat) :
    (∃ reply w, AsyncWrite.pollWrite (s.buffer.drop offset) s.writer = (reply, w) ∧
      (∀ n, reply ≠ .ready (.ok n)) ∧ ∃ answer, (∀ a, answer ≠ .ready (.ok a)) ∧
        writeTurn written s offset = .exit answer {s with writer := w}) ∨
    ∃ n w, AsyncWrite.pollWrite (s.buffer.drop offset) s.writer = (.ready (.ok n), w) ∧
      writeTurn written s offset = if offset + n = s.buffer.length then written {s with writer := w}
        else .again {s with writer := w, state := .write (offset + n)} := by
  rcases hpoll : AsyncWrite.pollWrite (s.buffer.drop offset) s.writer with ⟨_ | e | n, w⟩
  · exact .inl ⟨_, w, rfl, (fun n h => by cases h), .pending,
      (fun a h => by cases h), by simp only [writeTurn, hpoll]⟩
  · refine .inl ⟨_, w, rfl, (fun n h => by cases h), .ready (.error e), (fun a h => by cases h), ?_⟩
    simp only [writeTurn, hpoll]
  · exact .inr ⟨n, w, rfl, by simp only [writeTurn, hpoll]⟩

/-- A turn of `poll_write` in the filling state. -/
theorem pollWriteTurn_fill (buf : Bytes) (hs : s.state = .fill) : pollWriteTurn buf s =
    if s.buffer.length < s.capacity then
      .exit (.ready (.ok (min (s.capacity - s.buffer.length) buf.length)))
        {s with buffer := s.buffer ++ buf.take (min (s.capacity - s.buffer.length) buf.length)}
    else .again s.encrypt := by
  simp only [pollWriteTurn, hs, Nat.sub_pos_iff_lt]

theorem pollWriteTurn_write (buf : Bytes) {offset : Nat} (hs : s.state = .write offset) :
    pollWriteTurn buf s = writeTurn (fun s => .again s.clear) s offset := by
  simp only [pollWriteTurn, hs]

theorem pollFlushTurn_fill (hs : s.state = .fill) : pollFlushTurn s = .again s.encrypt := by
  simp only [pollFlushTurn, hs]

theorem pollFlushTurn_write {offset : Nat} (hs : s.state = .write offset) :
    pollFlushTurn s = writeTurn (fun s => .exit (.ready (.ok ())) s.clear) s offset := by
  simp only [pollFlushTurn, hs]

end AsyncStaged

abbrev AsyncBufferedWriter (ω : Type) := AsyncStaged Unit ω

abbrev AsyncEncryptionWriter (ω : Type) := AsyncStaged Cfb8 ω

/-- The source's third state, `Poisoned`, stands in only while a call runs. -/
inductive AsyncDefaultWriter (ω : Type) where
  | standard (writer : AsyncBufferedWriter ω)
  | encrypt (writer : AsyncEncryptionWriter ω)

namespace AsyncDefaultWriter
variable {ω : Type}

def new (writer : ω) (bufferSize : Nat) : AsyncDefaultWriter ω :=
  .standard ⟨(), writer, [], bufferSize, .fill⟩

/-- `None` where the source panics. -/
def withEncryption (aes : Block → Block → Block) (key : Block) :
    AsyncDefaultWriter ω → Option (AsyncDefaultWriter ω)
  | standard b => some (.encrypt ⟨.new aes key, b.writer, [], b.capacity, .fill⟩)
  | encrypt _ => none

/-- The writer underneath. -/
def sink : AsyncDefaultWriter ω → ω
  | standard b => b.writer
  | encrypt e => e.writer

/-- `poll_write` and `poll_flush`: those of the writer of the mode. -/
def polls [AsyncWrite ω] : Polls (AsyncDefaultWriter ω) where
  write buf
    | standard b, reply, standard b' => AsyncStaged.polls.write buf b reply b'
    | encrypt e, reply, encrypt e' => AsyncStaged.polls.write buf e reply e'
    | _, _, _ => False
  flush
    | standard b, reply, standard b' => AsyncStaged.polls.flush b reply b'
    | encrypt e, reply, encrypt e' => AsyncStaged.polls.flush e reply e'
    | _, _, _ => False

theorem wraps_standard [AsyncWrite ω] :
    AsyncStaged.polls.Wraps (polls : Polls (AsyncDefaultWriter ω)) standard where
  write := by
    intro buf b reply w' hpoll
    cases w' with
    | standard b' => exact ⟨b', rfl, hpoll⟩
    | encrypt e' => exact hpoll.elim
  flush := by
    intro b reply w' hpoll
    cases w' with
    | standard b' => exact ⟨b', rfl, hpoll⟩
    | encrypt e' => exact hpoll.elim

theorem wraps_encrypt [AsyncWrite ω] :
    AsyncStaged.polls.Wraps (polls : Polls (AsyncDefaultWriter ω)) encrypt where
  write := by
    intro buf e reply w' hpoll
    cases w' with
    | standard b' => exact hpoll.elim
    | encrypt e' => exact ⟨e', rfl, hpoll⟩
  flush := by
    intro e reply w' hpoll
    cases w' with
    | standard b' => exact hpoll.elim
    | encrypt e' => exact ⟨e', rfl, hpoll⟩

end AsyncDefaultWriter

/-! ### Delivery -/

namespace AsyncStaged
variable {κ ω : Type} [InPlace κ]

/-- The buffered bytes still to be delivered, as they will be. -/
def outstanding (s : AsyncStaged κ ω) : Bytes :=
  match s.state with
  | .fill => InPlace.machine.output s.encryptor s.buffer
  | .write offset => s.buffer.drop offset

/-- How far the encryption has got: to the buffer, or past it once that is being
written. -/
def encrypted (start s : AsyncStaged κ ω) (accepted : Bytes) : Prop :=
  match s.state with
  | .fill => ∃ done, accepted = done ++ s.buffer ∧
    s.encryptor = InPlace.machine.after start.encryptor done
  | .write offset => offset ≤ s.buffer.length ∧
    s.encryptor = InPlace.machine.after start.encryptor accepted

/-- **Nothing is lost, repeated or encrypted twice**: the bytes delivered, and then
those outstanding, are the encryption of what was accepted. -/
structure Delivering (received : ω → Bytes) (start : AsyncStaged κ ω)
    (s : Session (AsyncStaged κ ω)) : Prop where
  delivered : received s.writer.writer ++ s.writer.outstanding =
    received start.writer ++ InPlace.machine.output start.encryptor s.accepted
  state : encrypted start s.writer s.accepted
  capacity : s.writer.capacity = start.capacity

section Delivery
variable {received : ω → Bytes} {start s : AsyncStaged κ ω} {accepted : Bytes}

theorem Delivering.encrypt (h : Delivering received start ⟨s, accepted⟩) (hs : s.state = .fill) :
    Delivering received start ⟨s.encrypt, accepted⟩ := by
  obtain ⟨hdelivered, hstate, hcapacity⟩ := h
  simp only [encrypted, hs, outstanding] at hdelivered hstate
  obtain ⟨done, rfl, henc⟩ := hstate
  refine ⟨hdelivered, ⟨Nat.zero_le _, ?_⟩, hcapacity⟩
  simp only [AsyncStaged.encrypt, henc, Mealy.after_append]

theorem Delivering.clear (h : Delivering received start ⟨s, accepted⟩) {offset : Nat}
    (hs : s.state = .write offset) (hoffset : offset = s.buffer.length) :
    Delivering received start ⟨s.clear, accepted⟩ := by
  obtain ⟨hdelivered, hstate, hcapacity⟩ := h
  simp only [encrypted, hs, outstanding] at hdelivered hstate
  subst hoffset
  refine ⟨?_, ⟨accepted, by simp [AsyncStaged.clear], hstate.2⟩, hcapacity⟩
  simpa [AsyncStaged.clear, outstanding] using hdelivered

theorem Delivering.fill (h : Delivering received start ⟨s, accepted⟩) (hs : s.state = .fill)
    (taken : Bytes) :
    Delivering received start ⟨{s with buffer := s.buffer ++ taken}, accepted ++ taken⟩ := by
  obtain ⟨hdelivered, hstate, hcapacity⟩ := h
  simp only [encrypted, hs, outstanding] at hdelivered hstate
  obtain ⟨done, rfl, henc⟩ := hstate
  refine ⟨?_, ?_, hcapacity⟩
  · simp only [outstanding, hs]
    rw [Mealy.output_append _ s.encryptor, ← List.append_assoc, hdelivered,
      Mealy.output_append _ start.encryptor (done ++ s.buffer), Mealy.after_append, ← henc,
      List.append_assoc]
  · simp only [encrypted, hs]
    exact ⟨done, by simp, henc⟩

/-- The sink takes the next bytes of a buffer being written. -/
theorem Delivering.wrote (h : Delivering received start ⟨s, accepted⟩) {offset n : Nat} {w : ω}
    (hs : s.state = .write offset) (hn : n ≤ (s.buffer.drop offset).length)
    (hreceived : received w = received s.writer ++ (s.buffer.drop offset).take n) :
    Delivering received start ⟨{s with writer := w, state := .write (offset + n)}, accepted⟩ := by
  obtain ⟨hdelivered, hstate, hcapacity⟩ := h
  simp only [encrypted, hs, outstanding] at hdelivered hstate
  rw [List.length_drop] at hn
  refine ⟨?_, ⟨by simp only; omega, hstate.2⟩, hcapacity⟩
  simp only [outstanding, hreceived]
  rw [List.append_assoc, ← hdelivered, ← List.drop_drop, List.take_append_drop]

/-- It takes nothing, or has not answered. -/
theorem Delivering.waited (h : Delivering received start ⟨s, accepted⟩) {w : ω}
    (hreceived : received w = received s.writer) :
    Delivering received start ⟨{s with writer := w}, accepted⟩ :=
  ⟨by simpa only [outstanding, hreceived] using h.delivered, h.state, h.capacity⟩

variable [AsyncWrite ω]

/-- What a turn that offers bytes to the sink does: it waits, it writes some and goes
on, or it writes the last. -/
theorem Delivering.writeTurn {α : Type} (h : Delivering received start ⟨s, accepted⟩)
    (htakes : AsyncTakes received) {offset : Nat} (hs : s.state = .write offset)
    (written : AsyncStaged κ ω → Turn (AsyncStaged κ ω) (PollIo α)) :
    (∃ w reply, (∀ a, reply ≠ .ready (.ok a)) ∧
      writeTurn written s offset = .exit reply {s with writer := w} ∧
      Delivering received start ⟨{s with writer := w}, accepted⟩) ∨
    (∃ w n, (AsyncLawful received → 0 < n) ∧ writeTurn written s offset =
        .again {s with writer := w, state := .write (offset + n)} ∧
      Delivering received start ⟨{s with writer := w, state := .write (offset + n)}, accepted⟩) ∨
    (∃ w, writeTurn written s offset = written {s with writer := w} ∧
      Delivering received start ⟨({s with writer := w} : AsyncStaged κ ω).clear, accepted⟩) := by
  rcases writeTurn_cases written s offset with ⟨reply, w, hpoll, hreply, answer, hanswer, hturn⟩ |
      ⟨n, w, hpoll, hturn⟩
  · exact .inl ⟨w, answer, hanswer, hturn, h.waited (htakes.kept hpoll hreply)⟩
  · obtain ⟨hn, hreceived⟩ := htakes.written hpoll
    have hwrote := h.wrote hs hn hreceived
    have hoffset := h.state
    simp only [encrypted, hs] at hoffset
    rw [List.length_drop] at hn
    by_cases hlast : offset + n = s.buffer.length
    · rw [if_pos hlast] at hturn
      exact .inr (.inr ⟨w, hturn, hwrote.clear rfl hlast⟩)
    · rw [if_neg hlast] at hturn
      refine .inr (.inl ⟨w, n, fun hlawful => (hlawful.written hpoll).2.1 fun he => ?_, hturn, hwrote⟩)
      have := List.drop_eq_nil_iff.mp he
      omega

/-- At most so many turns of a poll are left, `inFill` of them from the filling state. -/
def turnsLeft (inFill : Nat) (s : AsyncStaged κ ω) : Nat :=
  match s.state with
  | .fill => inFill
  | .write offset => s.buffer.length - offset + 1

/-- `poll_write` returns where there is room. -/
def writeTurnsLeft (s : AsyncStaged κ ω) : Nat :=
  s.turnsLeft (if s.buffer.length < s.capacity then 0 else s.buffer.length + 2)

def flushTurnsLeft (s : AsyncStaged κ ω) : Nat := s.turnsLeft (s.buffer.length + 2)

omit [AsyncWrite ω] in
theorem turnsLeft_encrypt (hs : s.state = .fill) (inFill : Nat) :
    s.encrypt.turnsLeft inFill < s.turnsLeft (s.buffer.length + 2) := by
  simp only [turnsLeft, hs, AsyncStaged.encrypt, Mealy.length_output]
  omega

omit [InPlace κ] [AsyncWrite ω] in
theorem turnsLeft_wrote {offset n : Nat} {w : ω} (hs : s.state = .write offset) (hn : 0 < n)
    (hle : offset + n ≤ s.buffer.length) (inFill inFill' : Nat) :
    ({s with writer := w, state := .write (offset + n)} : AsyncStaged κ ω).turnsLeft inFill <
      s.turnsLeft inFill' := by
  simp only [turnsLeft, hs]
  omega

/-- One turn of `poll_write`. -/
theorem Delivering.pollWriteTurn (h : Delivering received start ⟨s, accepted⟩)
    (htakes : AsyncTakes received) (buf : Bytes) :
    (AsyncStaged.pollWriteTurn buf s).Leads
      (fun s' => Delivering received start ⟨s', accepted⟩ ∧
        (AsyncLawful received → 0 < start.capacity → writeTurnsLeft s' < writeTurnsLeft s))
      (fun reply s' => Delivering received start ⟨s', accepted ++ buf.take reply.accepted⟩) := by
  rcases hs : s.state with _ | offset
  · rw [pollWriteTurn_fill buf hs]
    by_cases hroom : s.buffer.length < s.capacity
    · rw [if_pos hroom]
      exact h.fill hs _
    · rw [if_neg hroom]
      refine ⟨h.encrypt hs, fun _ _ => ?_⟩
      rw [writeTurnsLeft, writeTurnsLeft, if_neg hroom]
      exact turnsLeft_encrypt hs _
  · rw [pollWriteTurn_write buf hs]
    rcases h.writeTurn htakes hs (fun s => .again s.clear) with
      ⟨w, reply, hreply, hexit, hd⟩ | ⟨w, n, hn, hagain, hd⟩ | ⟨w, hwritten, hd⟩
    · rw [hexit]
      show Delivering received start ⟨_, accepted ++ buf.take reply.accepted⟩
      rwa [PollIo.accepted_eq_zero hreply, List.take_zero, List.append_nil]
    · rw [hagain]
      exact ⟨hd, fun hlawful _ => turnsLeft_wrote hs (hn hlawful) hd.state.1 _ _⟩
    · rw [hwritten]
      refine ⟨hd, fun _ hcap => ?_⟩
      have hcapacity : s.capacity = start.capacity := hd.capacity
      simp [writeTurnsLeft, turnsLeft, hs, AsyncStaged.clear, hcapacity, hcap]

/-- One turn of `poll_flush`: it succeeds only with the last byte written. -/
theorem Delivering.pollFlushTurn (h : Delivering received start ⟨s, accepted⟩)
    (htakes : AsyncTakes received) :
    (AsyncStaged.pollFlushTurn s).Leads
      (fun s' => Delivering received start ⟨s', accepted⟩ ∧
        (AsyncLawful received → flushTurnsLeft s' < flushTurnsLeft s))
      (fun reply s' => Delivering received start ⟨s', accepted⟩ ∧
        (reply = .ready (.ok ()) → s'.state = .fill ∧ s'.buffer = [])) := by
  rcases hs : s.state with _ | offset
  · rw [pollFlushTurn_fill hs]
    exact ⟨h.encrypt hs, fun _ => turnsLeft_encrypt hs _⟩
  · rw [pollFlushTurn_write hs]
    rcases h.writeTurn htakes hs (fun s => .exit (.ready (.ok ())) s.clear) with
      ⟨w, reply, hreply, hexit, hd⟩ | ⟨w, n, hn, hagain, hd⟩ | ⟨w, hwritten, hd⟩
    · rw [hexit]
      exact ⟨hd, fun he => absurd he (hreply ())⟩
    · rw [hagain]
      exact ⟨hd, fun hlawful => turnsLeft_wrote hs (hn hlawful) hd.state.1 _ _⟩
    · rw [hwritten]
      exact ⟨hd, fun _ => ⟨rfl, rfl⟩⟩

/-! ### Polls and runs -/

theorem Delivering.pollWrite (h : Delivering received start ⟨s, accepted⟩)
    (htakes : AsyncTakes received) {buf : Bytes} {reply : PollIo Nat} {s' : AsyncStaged κ ω}
    (hpoll : polls.write buf s reply s') :
    Delivering received start ⟨s', accepted ++ buf.take reply.accepted⟩ := by
  refine Turn.Exits.spec (I := fun s => Delivering received start ⟨s, accepted⟩)
    (Q := fun reply s' => Delivering received start ⟨s', accepted ++ buf.take reply.accepted⟩) ?_ h hpoll
  intro s h
  exact (h.pollWriteTurn htakes buf).mono (fun _ hd => hd.1) (fun _ _ hd => hd)

theorem Delivering.pollFlush (h : Delivering received start ⟨s, accepted⟩)
    (htakes : AsyncTakes received) {reply : PollIo Unit} {s' : AsyncStaged κ ω}
    (hpoll : polls.flush s reply s') :
    Delivering received start ⟨s', accepted⟩ ∧
      (reply = .ready (.ok ()) → s'.state = .fill ∧ s'.buffer = []) := by
  refine Turn.Exits.spec (I := fun s => Delivering received start ⟨s, accepted⟩)
    (Q := fun reply s' => Delivering received start ⟨s', accepted⟩ ∧
      (reply = .ready (.ok ()) → s'.state = .fill ∧ s'.buffer = [])) ?_ h hpoll
  intro s h
  exact (h.pollFlushTurn htakes).mono (fun _ hd => hd.1) (fun _ _ hd => hd)

/-- Every poll of a writer with room for a byte returns. -/
theorem Delivering.pollWrite_returns (h : Delivering received start ⟨s, accepted⟩)
    (hlawful : AsyncLawful received) (hcapacity : 0 < start.capacity) (buf : Bytes) :
    ∃ reply s', polls.write buf s reply s' := by
  refine Turn.loop_returns (I := fun s => Delivering received start ⟨s, accepted⟩)
    writeTurnsLeft ?_ h
  intro s s₁ h hagain
  have hturn := h.pollWriteTurn hlawful.takes buf
  rw [hagain] at hturn
  exact ⟨hturn.1, hturn.2 hlawful hcapacity⟩

theorem Delivering.pollFlush_returns (h : Delivering received start ⟨s, accepted⟩)
    (hlawful : AsyncLawful received) : ∃ reply s', polls.flush s reply s' := by
  refine Turn.loop_returns (I := fun s => Delivering received start ⟨s, accepted⟩)
    flushTurnsLeft ?_ h
  intro s s₁ h hagain
  have hturn := h.pollFlushTurn hlawful.takes
  rw [hagain] at hturn
  exact ⟨hturn.1, hturn.2 hlawful⟩

omit [AsyncWrite ω] in
/-- A fresh writer has delivered all it was given, which is nothing yet. -/
theorem Delivering.fresh (hstate : start.state = .fill) (hbuffer : start.buffer = []) :
    Delivering received start ⟨start, []⟩ :=
  ⟨by simp [outstanding, hstate, hbuffer], by simp [encrypted, hstate, hbuffer], rfl⟩

theorem Delivering.reaches {s₀ s : Session (AsyncStaged κ ω)} (h : Delivering received start s₀)
    (htakes : AsyncTakes received) (hreach : polls.Reaches s₀ s) : Delivering received start s := by
  induction hreach with
  | start => exact h
  | write _ hpoll ih => exact ih.pollWrite htakes hpoll
  | flush _ hpoll ih => exact (ih.pollFlush htakes hpoll).1

/-- What holds of a reachable state: the bytes the sink has, and then those outstanding,
are `expected`; each poll returns; and a flush that succeeds leaves nothing buffered. -/
structure ExactlyOnce (received : ω → Bytes) (s : AsyncStaged κ ω) (expected : Bytes) : Prop where
  delivered : received s.writer ++ s.outstanding = expected
  writes : ∀ buf, ∃ reply s', polls.write buf s reply s'
  flushes : ∃ reply s', polls.flush s reply s'
  flushed : ∀ {s'}, polls.flush s (.ready (.ok ())) s' → s'.buffer = [] ∧ received s'.writer = expected

/-- The state `new` starts a writer in. -/
structure Fresh (s : AsyncStaged κ ω) : Prop where
  state : s.state = .fill
  buffer : s.buffer = []
  capacity : 0 < s.capacity

theorem exactlyOnce (hlawful : AsyncLawful received) (hfresh : Fresh start)
    {s : Session (AsyncStaged κ ω)} (hreach : polls.Reaches ⟨start, []⟩ s) :
    ExactlyOnce received s.writer
      (received start.writer ++ InPlace.machine.output start.encryptor s.accepted) := by
  have h := (Delivering.fresh hfresh.state hfresh.buffer).reaches hlawful.takes hreach
  refine ⟨h.delivered, h.pollWrite_returns hlawful hfresh.capacity, h.pollFlush_returns hlawful,
    fun hpoll => ?_⟩
  obtain ⟨hd, hdone⟩ := h.pollFlush hlawful.takes hpoll
  obtain ⟨hstate, hbuffer⟩ := hdone rfl
  have hdelivered := hd.delivered
  simp only [outstanding, hstate, hbuffer, Mealy.output_nil, List.append_nil] at hdelivered
  exact ⟨hbuffer, hdelivered⟩

end Delivery
end AsyncStaged

/-- What is in the buffer and still to be delivered. -/
def AsyncDefaultWriter.outstanding {ω : Type} : AsyncDefaultWriter ω → Bytes
  | standard b => b.outstanding
  | encrypt e => e.outstanding

/-- **Exactly-once delivery**, of both writers: in every state any order of polls leads
to, over any sink, the sink has and will get the bytes accepted, plain or encrypted
once from the initial state. -/
theorem exactly_once_delivery {ω : Type} [AsyncWrite ω] {received : ω → Bytes}
    (hlawful : AsyncLawful received) :
    (∀ (start : AsyncBufferedWriter ω) (s : Session (AsyncBufferedWriter ω)), start.Fresh →
      AsyncStaged.polls.Reaches ⟨start, []⟩ s →
      s.writer.ExactlyOnce received (received start.writer ++ s.accepted)) ∧
    (∀ (start : AsyncEncryptionWriter ω) (s : Session (AsyncEncryptionWriter ω)), start.Fresh →
      AsyncStaged.polls.Reaches ⟨start, []⟩ s →
      s.writer.ExactlyOnce received
        (received start.writer ++ Cfb8.encryptor.output start.encryptor s.accepted)) := by
  constructor
  · intro start s hfresh hreach
    have h := AsyncStaged.exactlyOnce hlawful hfresh hreach
    have hidentity : InPlace.machine.output start.encryptor s.accepted = s.accepted :=
      Mealy.identity_output _ _
    rwa [hidentity] at h
  · intro start s hfresh hreach
    exact AsyncStaged.exactlyOnce hlawful hfresh hreach

theorem exactly_once_delivery_interrupted :
    let start : AsyncBufferedWriter AsyncScripted := ⟨(), ⟨[some (.ok 0), none], []⟩, [], 2, .fill⟩
    let buffered : AsyncBufferedWriter AsyncScripted := {start with buffer := [1, 2]}
    let waiting : AsyncBufferedWriter AsyncScripted :=
      {buffered with writer := ⟨[], [1]⟩, state := .write 1}
    let cipher : Cfb8 := ⟨fun _ _ => 1, fun _ => 0⟩
    let fresh : AsyncEncryptionWriter AsyncScripted := ⟨cipher, ⟨[some (.ok 0), none], []⟩, [], 2, .fill⟩
    let filled : AsyncEncryptionWriter AsyncScripted := {fresh with buffer := [1, 2]}
    let encrypted : AsyncEncryptionWriter AsyncScripted :=
      {filled.encrypt with writer := ⟨[], filled.encrypt.buffer.take 1⟩, state := .write 1}
    waiting.ExactlyOnce AsyncScripted.bytes [1, 2] ∧
      encrypted.ExactlyOnce AsyncScripted.bytes (Cfb8.encryptor.output cipher [1, 2]) := by
  intro start buffered waiting cipher fresh filled encrypted
  have hwrite : AsyncStaged.polls.write [1, 2, 3] start (.ready (.ok 2)) buffered := ⟨1, rfl⟩
  have hflush : AsyncStaged.polls.flush buffered .pending waiting := ⟨3, rfl⟩
  have hwritten : AsyncStaged.polls.Reaches ⟨start, []⟩ ⟨buffered, [1, 2]⟩ :=
    Polls.Reaches.write (s := ⟨start, []⟩) .start hwrite
  have hreach : AsyncStaged.polls.Reaches ⟨start, []⟩ ⟨waiting, [1, 2]⟩ :=
    Polls.Reaches.flush (s := ⟨buffered, [1, 2]⟩) hwritten hflush
  have hwrite' : AsyncStaged.polls.write [1, 2, 3] fresh (.ready (.ok 2)) filled := ⟨1, rfl⟩
  have hflush' : AsyncStaged.polls.flush filled .pending encrypted := ⟨3, rfl⟩
  have hwritten' : AsyncStaged.polls.Reaches ⟨fresh, []⟩ ⟨filled, [1, 2]⟩ :=
    Polls.Reaches.write (s := ⟨fresh, []⟩) .start hwrite'
  have hreach' : AsyncStaged.polls.Reaches ⟨fresh, []⟩ ⟨encrypted, [1, 2]⟩ :=
    Polls.Reaches.flush (s := ⟨filled, [1, 2]⟩) hwritten' hflush'
  exact ⟨(exactly_once_delivery AsyncScripted.lawful).1 start _ ⟨rfl, rfl, by decide⟩ hreach,
    (exactly_once_delivery AsyncScripted.lawful).2 fresh _ ⟨rfl, rfl, by decide⟩ hreach'⟩

end Protocraft
