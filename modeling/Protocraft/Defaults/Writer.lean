import Protocraft.Stream.Cipher
import Protocraft.Stream.Sink

/-! The synchronous writers.

`BufferedWriter` and `EncryptionWriter` are the same writer but for what happens to
the buffer on its way out: nothing, or encryption in place. A write that finds the
buffer full, and a flush that finds it not empty, hand it over with one `write_all`
and clear it; if that fails, the buffer stays as it is by then, with what was
already delivered still in it and, when encrypting, as ciphertext.

What was delivered is what was accepted, encrypted once, as long as no buffer left
behind by such a failure is handed over again (`Staged.run_sound`). -/
namespace Protocraft
open Protocraft.Stream

/-- What is done in place to the bytes of a buffer on their way out. -/
class InPlace (κ : Type) where
  machine : Mealy κ Byte Byte

instance : InPlace Unit := ⟨Mealy.identity⟩

instance : InPlace Cfb8 := ⟨Cfb8.encryptor⟩

structure Staged (κ ω : Type) where
  encryptor : κ
  writer : ω
  buffer : Bytes
  capacity : Nat

namespace Staged
variable {κ ω : Type} [InPlace κ]

/-- The buffer after its encryption in place. -/
def encrypt (s : Staged κ ω) : Staged κ ω :=
  {s with
    encryptor := InPlace.machine.after s.encryptor s.buffer
    buffer := InPlace.machine.output s.encryptor s.buffer}

section Write
variable [Write ω]

/-- Encrypts the buffer, hands it over and clears it. -/
def writeOut : Action IoError (Staged κ ω) Unit := fun s =>
  match writeAll s.encrypt.buffer s.writer with
  | (.ok (), writer) => (.ok (), {s.encrypt with writer := writer, buffer := []})
  | (.error e, writer) => (.error e, {s.encrypt with writer := writer})

def fill (buf : Bytes) : Action IoError (Staged κ ω) Nat := fun s =>
  let amountToWrite := min (s.capacity - s.buffer.length) buf.length
  (.ok amountToWrite, {s with buffer := s.buffer ++ buf.take amountToWrite})

def write (buf : Bytes) : Action IoError (Staged κ ω) Nat := fun s =>
  if s.capacity - s.buffer.length = 0 then
    (do
      writeOut
      fill buf) s
  else fill buf s

def flushInner : Action IoError (Staged κ ω) Unit := fun s =>
  ((Write.flush s.writer).1, {s with writer := (Write.flush s.writer).2})

def flush : Action IoError (Staged κ ω) Unit := fun s =>
  if s.buffer ≠ [] then
    (do
      writeOut
      flushInner) s
  else flushInner s

instance : Write (Staged κ ω) := ⟨write, flush⟩

end Write
end Staged

abbrev BufferedWriter (ω : Type) := Staged Unit ω

abbrev EncryptionWriter (ω : Type) := Staged Cfb8 ω

/-- The source's third state, `Poisoned`, stands in only while a call runs. -/
inductive DefaultWriterState (ω : Type) where
  | standard (writer : BufferedWriter ω)
  | encrypt (writer : EncryptionWriter ω)

structure DefaultWriter (κ ω : Type) where
  compressionState : κ
  writer : DefaultWriterState ω

namespace DefaultWriter
variable {κ ω : Type}

def new (compressionState : κ) (writer : ω) (bufferSize : Nat) : DefaultWriter κ ω :=
  ⟨compressionState, .standard ⟨(), writer, [], bufferSize⟩⟩

/-- `None` where the source panics. -/
def withEncryption (aes : Block → Block → Block) (key : Block) (w : DefaultWriter κ ω) :
    Option (DefaultWriter κ ω) :=
  match w.writer with
  | .standard b => some {w with writer := .encrypt ⟨.new aes key, b.writer, [], b.capacity⟩}
  | .encrypt _ => none

/-- The writer underneath. -/
def sink (w : DefaultWriter κ ω) : ω :=
  match w.writer with
  | .standard b => b.writer
  | .encrypt e => e.writer

def buffer (w : DefaultWriter κ ω) : Bytes :=
  match w.writer with
  | .standard b => b.buffer
  | .encrypt e => e.buffer

variable [Write ω]

def write (buf : Bytes) : Action IoError (DefaultWriter κ ω) Nat := fun w =>
  match w.writer with
  | .standard b => ((Write.write buf b).1, {w with writer := .standard (Write.write buf b).2})
  | .encrypt e => ((Write.write buf e).1, {w with writer := .encrypt (Write.write buf e).2})

def flush : Action IoError (DefaultWriter κ ω) Unit := fun w =>
  match w.writer with
  | .standard b => ((Write.flush b).1, {w with writer := .standard (Write.flush b).2})
  | .encrypt e => ((Write.flush e).1, {w with writer := .encrypt (Write.flush e).2})

instance : Write (DefaultWriter κ ω) := ⟨write, flush⟩

end DefaultWriter

/-! ### One call -/

namespace Staged
variable {κ ω : Type} [InPlace κ] [Write ω]

/-- The call hands the buffer over. -/
def HandsOver (op : WriteOp) (s : Staged κ ω) : Prop :=
  match op with
  | .write _ => s.capacity - s.buffer.length = 0
  | .flush => s.buffer ≠ []

theorem writeOut_empty {s : Staged κ ω} (h : s.buffer = []) : (writeOut s).1 = .ok () := by
  have : s.encrypt.buffer = [] := by simp [encrypt, h]
  simp [writeOut, this, writeAll, writeAllLoop]

/-- After a failed handover nothing else is done. -/
theorem perform_failed {op : WriteOp} {s s' : Staged κ ω} {e : IoError} (h : HandsOver op s)
    (hout : writeOut s = (.error e, s')) : op.perform s = (.error e, s') := by
  cases op with
  | write buf => exact (if_pos h).trans (bind_error hout)
  | flush =>
    have hflush : Write.flush s = (.error e, s') := (if_pos h).trans (bind_error hout)
    exact bind_error hflush

/-- What a call does to the buffer once that is handed over, or when it need not be. -/
def finish : WriteOp → Action IoError (Staged κ ω) Nat
  | .write buf => fill buf
  | .flush => do
    flushInner
    return 0

theorem perform_over {op : WriteOp} {s s' : Staged κ ω} (h : HandsOver op s)
    (hout : writeOut s = (.ok (), s')) : op.perform s = finish op s' := by
  cases op with
  | write buf => exact (if_pos h).trans (bind_ok hout)
  | flush =>
    have hflush : Write.flush s = flushInner s' := (if_pos h).trans (bind_ok hout)
    show (Write.flush >>= fun _ => pure 0) s = (flushInner >>= fun _ => pure 0) s'
    rw [bind_apply, bind_apply, hflush]

theorem perform_within {op : WriteOp} {s : Staged κ ω} (h : ¬ HandsOver op s) :
    op.perform s = finish op s := by
  cases op with
  | write buf => exact if_neg h
  | flush =>
    have hflush : Write.flush s = flushInner s := if_neg h
    show (Write.flush >>= fun _ => pure 0) s = (flushInner >>= fun _ => pure 0) s
    rw [bind_apply, bind_apply, hflush]

/-! ### Delivery -/

/-- The encryption of all of `bytes`, from `enc` on. -/
def encoded (enc : κ) (bytes : Bytes) : Bytes := InPlace.machine.output enc bytes

/-- What a writer that started out as `start` has done with the bytes accepted: those
of `done` are delivered, the others are in the buffer. -/
structure Delivering (received : ω → Bytes) (start : Staged κ ω) (s : Session (Staged κ ω))
    (done : Bytes) : Prop where
  split : s.accepted = done ++ s.writer.buffer
  delivered : received s.writer.writer = received start.writer ++ encoded start.encryptor done
  state : s.writer.encryptor = InPlace.machine.after start.encryptor done

/-- A buffer left behind by a failure: some of what was accepted is delivered, but not
all. -/
structure Torn (received : ω → Bytes) (start : Staged κ ω) (s : Session (Staged κ ω)) : Prop where
  buffered : s.writer.buffer ≠ []
  delivered : received s.writer.writer <+:
    received start.writer ++ encoded start.encryptor s.accepted
  short : (received s.writer.writer).length < (received start.writer).length + s.accepted.length

section Delivery
variable {received : ω → Bytes} {start : Staged κ ω} {s : Session (Staged κ ω)} {done : Bytes}

omit [Write ω] in
theorem Delivering.front (h : Delivering received start s done) :
    received s.writer.writer <+: received start.writer ++ encoded start.encryptor s.accepted := by
  rw [h.delivered, h.split]
  exact (List.prefix_append_right_inj _).mpr
    (InPlace.machine.output_prefix _ (List.prefix_append done _))

omit [Write ω] in
/-- The buffer, encrypted, is what comes next. -/
theorem Delivering.next (h : Delivering received start s done) :
    received start.writer ++ encoded start.encryptor s.accepted =
      received s.writer.writer ++ s.writer.encrypt.buffer := by
  rw [h.delivered, h.split, encoded, Mealy.output_append, ← h.state, List.append_assoc]
  rfl

theorem Delivering.handedOver (h : Delivering received start s done) (hlawful : Lawful received)
    {w : Staged κ ω} (hout : writeOut s.writer = (.ok (), w)) :
    Delivering received start ⟨w, s.accepted⟩ s.accepted := by
  unfold writeOut at hout
  split at hout
  next writer hwrite =>
    cases hout
    refine ⟨by simp, ?_, ?_⟩
    · simp only [writeAll_ok hlawful hwrite, h.next]
    · simp only [encrypt, h.state, h.split, Mealy.after_append]
  next => cases hout

/-- A failed handover either left the sink, the buffer and the cipher alone or tore
the buffer. -/
theorem Delivering.failed (h : Delivering received start s done) (hlawful : Lawful received)
    {w : Staged κ ω} {e : IoError} (hout : writeOut s.writer = (.error e, w)) :
    Torn received start ⟨w, s.accepted⟩ := by
  have hbuffer : s.writer.buffer ≠ [] := by
    intro he
    have := writeOut_empty he
    rw [hout] at this
    cases this
  unfold writeOut at hout
  split at hout
  next => cases hout
  next e' writer hwrite =>
    cases hout
    obtain ⟨n, hn, hreceived, hwhole⟩ := writeAll_lawful hlawful s.writer.encrypt.buffer s.writer.writer
    rw [hwrite] at hreceived hwhole
    have hlength := congrArg List.length h.next
    simp only [encoded, List.length_append, Mealy.length_output] at hlength
    refine ⟨fun he => hbuffer ?_, ?_, ?_⟩
    · have := congrArg List.length he
      simpa [encrypt] using this
    · simp only [hreceived, h.next]
      exact (List.prefix_append_right_inj _).mpr (List.take_prefix n _)
    · have hshort : n ≠ s.writer.encrypt.buffer.length := fun he => by cases hwhole.mpr he
      simp only [hreceived, List.length_append, List.length_take]
      omega

/-- What a call still does adds to the buffer the bytes it accepts, and nothing else. -/
theorem step_finish (hlawful : Lawful received) {op : WriteOp} {w : Staged κ ω}
    (hop : op.perform s.writer = finish op w) : ∃ taken,
      (s.step op).accepted = s.accepted ++ taken ∧
      (s.step op).writer.buffer = w.buffer ++ taken ∧
      (s.step op).writer.encryptor = w.encryptor ∧
      received (s.step op).writer.writer = received w.writer := by
  cases op with
  | write buf =>
    rw [Session.step_ok hop]
    exact ⟨_, rfl, rfl, rfl, rfl⟩
  | flush =>
    have hflushed := hlawful.flushed w.writer
    rcases hflush : Write.flush w.writer with ⟨e | _, w'⟩ <;> rw [hflush] at hflushed
    · have hinner : flushInner w = (.error e, {w with writer := w'}) := by simp [flushInner, hflush]
      rw [Session.step_error (hop.trans (bind_error hinner))]
      exact ⟨[], by simp, by simp, rfl, hflushed⟩
    · have hinner : flushInner w = (.ok (), {w with writer := w'}) := by simp [flushInner, hflush]
      rw [Session.step_ok (hop.trans (bind_ok hinner))]
      exact ⟨[], by simp [WriteOp.bytes], by simp, rfl, hflushed⟩

theorem Delivering.finished {w : Staged κ ω} (h : Delivering received start ⟨w, s.accepted⟩ done)
    (hlawful : Lawful received) {op : WriteOp} (hop : op.perform s.writer = finish op w) :
    Delivering received start (s.step op) done := by
  obtain ⟨taken, haccepted, hbuffer, henc, hreceived⟩ := step_finish hlawful hop
  refine ⟨?_, hreceived.trans h.delivered, henc.trans h.state⟩
  rw [haccepted, hbuffer, ← List.append_assoc]
  exact congrArg (· ++ taken) h.split

theorem Torn.finished {w : Staged κ ω} (h : Torn received start ⟨w, s.accepted⟩)
    (hlawful : Lawful received) {op : WriteOp} (hop : op.perform s.writer = finish op w) :
    Torn received start (s.step op) := by
  obtain ⟨taken, haccepted, hbuffer, -, hreceived⟩ := step_finish hlawful hop
  refine ⟨?_, ?_, ?_⟩
  · rw [hbuffer]
    exact fun he => h.buffered (List.append_eq_nil_iff.mp he).1
  · rw [hreceived, haccepted]
    refine h.delivered.trans ((List.prefix_append_right_inj _).mpr ?_)
    exact InPlace.machine.output_prefix _ (List.prefix_append _ _)
  · have := h.short
    simp only at this
    rw [hreceived, haccepted, List.length_append]
    omega

/-- A call that succeeds takes the bytes it says it has. -/
theorem Delivering.step_ok (h : Delivering received start s done) (hlawful : Lawful received)
    {op : WriteOp} {n : Nat} {w : Staged κ ω} (hop : op.perform s.writer = (.ok n, w)) :
    ∃ done', Delivering received start ⟨w, s.accepted ++ op.bytes.take n⟩ done' := by
  rw [← Session.step_ok hop]
  by_cases hover : HandsOver op s.writer
  · rcases hout : writeOut s.writer with ⟨e | _, w₁⟩
    · rw [perform_failed hover hout] at hop
      cases hop
    · exact ⟨_, (h.handedOver hlawful hout).finished hlawful (perform_over hover hout)⟩
  · exact ⟨done, Delivering.finished h hlawful (perform_within hover)⟩

/-! ### Runs -/

/-- A failed handover that left a trace: in the sink, the cipher or the buffer. -/
def Tears (received : ω → Bytes) (op : WriteOp) (w : Staged κ ω) : Prop :=
  HandsOver op w ∧ (∃ e, (writeOut w).1 = .error e) ∧
    ¬ (received (writeOut w).2.writer = received w.writer ∧
      (writeOut w).2.encryptor = w.encryptor ∧ (writeOut w).2.buffer = w.buffer)

/-- No call hands over a buffer that an earlier call has torn. -/
def Clean (received : ω → Bytes) : Prop → Staged κ ω → List WriteOp → Prop
  | _, _, [] => True
  | torn, w, op :: ops =>
    (torn → ¬ HandsOver op w) ∧ Clean received (torn ∨ Tears received op w) (op.perform w).2 ops

/-- What holds of every state of a clean run. -/
def Sound (received : ω → Bytes) (start : Staged κ ω) (torn : Prop) (s : Session (Staged κ ω)) :
    Prop :=
  (torn ∧ Torn received start s) ∨ (¬ torn ∧ ∃ done, Delivering received start s done)

theorem Sound.step {torn : Prop} (h : Sound received start torn s) (hlawful : Lawful received)
    {op : WriteOp} (hclean : torn → ¬ HandsOver op s.writer) :
    Sound received start (torn ∨ Tears received op s.writer) (s.step op) := by
  rcases h with ⟨htorn, h⟩ | ⟨htorn, done, h⟩
  · exact .inl ⟨.inl htorn, h.finished hlawful (perform_within (hclean htorn))⟩
  · by_cases hover : HandsOver op s.writer
    · rcases hout : writeOut s.writer with ⟨e | _, w⟩
      · have hstep := Session.step_error (perform_failed hover hout)
        by_cases htears : Tears received op s.writer
        · exact .inl ⟨.inr htears, hstep ▸ h.failed hlawful hout⟩
        · refine .inr ⟨not_or.mpr ⟨htorn, htears⟩, done, ?_⟩
          obtain ⟨hreceived, henc, hbuffer⟩ : received w.writer = received s.writer.writer ∧
              w.encryptor = s.writer.encryptor ∧ w.buffer = s.writer.buffer := by
            by_contra hne
            exact htears ⟨hover, ⟨e, by rw [hout]⟩, by rw [hout]; exact hne⟩
          rw [hstep]
          exact ⟨hbuffer ▸ h.split, hreceived.trans h.delivered, henc.trans h.state⟩
      · refine .inr ⟨?_, s.accepted, ?_⟩
        · intro h
          obtain ht | ⟨-, ⟨e, he⟩, -⟩ := h
          · exact htorn ht
          · rw [hout] at he
            cases he
        · exact (h.handedOver hlawful hout).finished hlawful (perform_over hover hout)
    · refine .inr ⟨?_, done, Delivering.finished h hlawful (perform_within hover)⟩
      intro h
      obtain ht | ⟨hover', -⟩ := h
      · exact htorn ht
      · exact hover hover'

theorem step_writer (s : Session (Staged κ ω)) (op : WriteOp) :
    (s.step op).writer = (op.perform s.writer).2 := by
  rcases hperform : op.perform s.writer with ⟨e | n, w⟩
  · rw [Session.step_error hperform]
  · rw [Session.step_ok hperform]

/-- **What was delivered is what was accepted, encrypted once**, up to every call of a
run that hands no torn buffer over again. -/
theorem Sound.run {torn : Prop} (h : Sound received start torn s) (hlawful : Lawful received)
    {ops ops' : List WriteOp} (hclean : Clean received torn s.writer (ops ++ ops')) :
    ∃ torn', Sound received start torn' (s.run ops) ∧ Clean received torn' (s.run ops).writer ops' := by
  induction ops generalizing s torn with
  | nil => exact ⟨torn, h, hclean⟩
  | cons op ops ih =>
    obtain ⟨hfirst, hrest⟩ : (torn → ¬ HandsOver op s.writer) ∧
        Clean received (torn ∨ Tears received op s.writer) (op.perform s.writer).2 (ops ++ ops') :=
        hclean
    rw [← step_writer] at hrest
    exact ih (h.step hlawful hfirst) hrest

omit [Write ω] in
theorem Sound.front {torn : Prop} (h : Sound received start torn s) : received s.writer.writer <+:
    received start.writer ++ encoded start.encryptor s.accepted := by
  rcases h with ⟨-, h⟩ | ⟨-, done, h⟩
  · exact h.delivered
  · exact h.front

omit [Write ω] in
/-- All is delivered just when nothing is in the buffer. -/
theorem Sound.delivered_iff {torn : Prop} (h : Sound received start torn s) :
    received s.writer.writer = received start.writer ++ encoded start.encryptor s.accepted ↔
      s.writer.buffer = [] := by
  rcases h with ⟨-, h⟩ | ⟨-, done, h⟩
  · refine ⟨fun he => ?_, fun he => absurd he h.buffered⟩
    have := h.short
    have := congrArg List.length he
    simp only [encoded, List.length_append, Mealy.length_output] at this
    omega
  · rw [h.next, List.self_eq_append_right, ← List.length_eq_zero_iff, ← List.length_eq_zero_iff]
    simp [encrypt]

/-- After a flush that succeeded nothing is outstanding. -/
theorem Sound.flushed {torn : Prop} (h : Sound received start torn s) (hlawful : Lawful received)
    (hclean : torn → ¬ HandsOver .flush s.writer) (hok : (Write.flush s.writer).1 = .ok ()) :
    received (Write.flush s.writer).2.writer =
      received start.writer ++ encoded start.encryptor s.accepted := by
  rcases h with ⟨htorn, h⟩ | ⟨htorn, done, h⟩
  · exact absurd h.buffered (hclean htorn)
  · by_cases hover : s.writer.buffer ≠ []
    · have happly : Write.flush s.writer = (writeOut >>= fun _ => flushInner) s.writer := if_pos hover
      rcases hout : writeOut s.writer with ⟨e | _, w⟩
      · rw [happly, bind_error hout] at hok
        cases hok
      · rw [happly, bind_ok hout]
        exact (hlawful.flushed w.writer).trans (h.handedOver hlawful hout).delivered
    · have happly : Write.flush s.writer = flushInner s.writer := if_neg hover
      have hempty : s.writer.buffer = [] := not_ne_iff.mp hover
      rw [happly, h.split, hempty, List.append_nil]
      exact (hlawful.flushed s.writer.writer).trans h.delivered

omit [Write ω] in
/-- A writer with an empty buffer has delivered all it was given, which is nothing yet. -/
theorem Sound.fresh (hfresh : start.buffer = []) :
    Sound received start False (⟨start, []⟩ : Session (Staged κ ω)) :=
  .inr ⟨id, [], by simp [hfresh], by simp [encoded], rfl⟩

/-- What the writer underneath has received at the end of a session, and after one more
flush that succeeds. -/
theorem run_delivered (hlawful : Lawful received) (hfresh : start.buffer = [])
    {ops : List WriteOp} (hclean : Clean received False start ops) :
    received ((Session.mk start []).run ops).writer.writer <+:
      received start.writer ++ encoded start.encryptor ((Session.mk start []).run ops).accepted ∧
    (Clean received False start (ops ++ [.flush]) →
      (Write.flush ((Session.mk start []).run ops).writer).1 = .ok () →
      received (Write.flush ((Session.mk start []).run ops).writer).2.writer =
        received start.writer ++ encoded start.encryptor ((Session.mk start []).run ops).accepted) := by
  constructor
  · rw [← List.append_nil ops] at hclean
    obtain ⟨torn, hsound, -⟩ := (Sound.fresh hfresh).run hlawful hclean
    exact hsound.front
  · intro hclean' hok
    obtain ⟨torn, hsound, hflush⟩ := (Sound.fresh hfresh).run hlawful hclean'
    exact hsound.flushed hlawful hflush.1 hok

/-- Over a sink that never fails nothing is ever torn. -/
theorem clean_of_reliable (hreliable : Reliable ω) {torn : Prop} (htorn : ¬ torn) (w : Staged κ ω)
    (ops : List WriteOp) : Clean received torn w ops := by
  induction ops generalizing torn w with
  | nil => trivial
  | cons op ops ih =>
    refine ⟨fun h => absurd h htorn, ih ?_ _⟩
    intro h'
    obtain h | ⟨-, ⟨e, he⟩, -⟩ := h'
    · exact htorn h
    · obtain ⟨w', hwrite⟩ := writeAll_reliable hreliable w.encrypt.buffer w.writer
      rw [writeOut, hwrite] at he
      cases he

theorem flush_reliable (hreliable : Reliable ω) (w : Staged κ ω) :
    ∃ w', Write.flush w = (.ok (), w') := by
  have hinner : ∀ w : Staged κ ω, ∃ w', flushInner w = (.ok (), w') := by
    intro w
    obtain ⟨w', hflush⟩ := hreliable.flushes w.writer
    exact ⟨{w with writer := w'}, by simp [flushInner, hflush]⟩
  by_cases hover : w.buffer ≠ []
  · have happly : Write.flush w = (writeOut >>= fun _ => flushInner) w := if_pos hover
    obtain ⟨w', hwrite⟩ := writeAll_reliable hreliable w.encrypt.buffer w.writer
    have hout : writeOut w = (.ok (), {w.encrypt with writer := w', buffer := []}) := by
      simp [writeOut, hwrite]
    rw [happly, bind_ok hout]
    exact hinner _
  · have happly : Write.flush w = flushInner w := if_neg hover
    rw [happly]
    exact hinner w

end Delivery
end Staged

namespace DefaultWriter
variable {κ ω : Type} [Write ω]

/-- What the mode makes of the bytes accepted. -/
def encoded (w : DefaultWriter κ ω) (bytes : Bytes) : Bytes :=
  match w.writer with
  | .standard b => Staged.encoded b.encryptor bytes
  | .encrypt e => Staged.encoded e.encryptor bytes

/-- No call of the run hands over a buffer that an earlier one has torn. -/
def Clean (received : ω → Bytes) (w : DefaultWriter κ ω) (ops : List WriteOp) : Prop :=
  match w.writer with
  | .standard b => Staged.Clean received False b ops
  | .encrypt e => Staged.Clean received False e ops

theorem wraps_standard (k : κ) :
    Session.Wraps (fun b : BufferedWriter ω => DefaultWriter.mk k (.standard b)) :=
  ⟨fun _ _ => rfl, fun _ => rfl⟩

theorem wraps_encrypt (k : κ) :
    Session.Wraps (fun e : EncryptionWriter ω => DefaultWriter.mk k (.encrypt e)) :=
  ⟨fun _ _ => rfl, fun _ => rfl⟩

/-- What the writer underneath has received at the end of a session, and would have
after one more flush. -/
structure Delivered (received : ω → Bytes) (start : DefaultWriter κ ω) (ops : List WriteOp) : Prop where
  front : received ((Session.mk start []).run ops).writer.sink <+:
    received start.sink ++ start.encoded ((Session.mk start []).run ops).accepted
  flushed : start.Clean received (ops ++ [.flush]) →
    (Write.flush ((Session.mk start []).run ops).writer).1 = .ok () →
    received (Write.flush ((Session.mk start []).run ops).writer).2.sink =
      received start.sink ++ start.encoded ((Session.mk start []).run ops).accepted

variable {received : ω → Bytes}

/-- **The writer survives failures** in every run that hands no torn buffer over
again: at every moment the sink has received a front part of what was accepted, in
the encoding of the mode, and after a flush that succeeds all of it. -/
theorem survives_failures (hlawful : Lawful received) (start : DefaultWriter κ ω)
    (hfresh : start.buffer = []) (ops : List WriteOp) (hclean : start.Clean received ops) :
    start.Delivered received ops := by
  rcases start with ⟨k, b | e⟩
  · obtain ⟨hfront, hflushed⟩ := Staged.run_delivered hlawful hfresh hclean
    have hrun : (Session.mk (DefaultWriter.mk k (.standard b)) []).run ops = _ :=
      (wraps_standard k).run ⟨b, []⟩ ops
    constructor <;> rw [hrun]
    · exact hfront
    · exact hflushed
  · obtain ⟨hfront, hflushed⟩ := Staged.run_delivered hlawful hfresh hclean
    have hrun : (Session.mk (DefaultWriter.mk k (.encrypt e)) []).run ops = _ :=
      (wraps_encrypt k).run ⟨e, []⟩ ops
    constructor <;> rw [hrun]
    · exact hfront
    · exact hflushed

theorem survives_failures_collected :
    (DefaultWriter.new () (⟨[]⟩ : Collected) 2).Delivered Collected.bytes [.write [1, 2, 3], .flush] :=
  survives_failures Collected.lawful _ rfl _ (Staged.clean_of_reliable Collected.reliable id _ _)

/-- Three bytes are accepted, two of them delivered before the flush fails, and the
next flush repeats those; when encrypting, the next flush encrypts the three again. -/
theorem retry_repeats :
    let failing : Scripted := ⟨[.ok 2, .error ⟨.timedOut, "timed out"⟩], []⟩
    let refusing : Scripted := ⟨[.error ⟨.wouldBlock, "would block"⟩], []⟩
    let cipher : Cfb8 := ⟨fun _ _ => 1, fun _ => 0⟩
    let calls : List WriteOp := [.write [1, 2, 3], .flush, .flush]
    let plain := (Session.mk (DefaultWriter.new () failing 4) []).run calls
    let encrypted := (Session.mk (DefaultWriter.mk () (.encrypt ⟨cipher, refusing, [], 4⟩)) []).run calls
    ¬ plain.writer.sink.bytes <+: plain.accepted ∧
      ¬ encrypted.writer.sink.bytes <+: Cfb8.encryptor.output cipher encrypted.accepted := by
  have hplain : ¬ ([1, 2, 1, 2, 3] : Bytes) <+: [1, 2, 3] := by decide
  have hencrypted : ¬ ([1, 2, 3] : Bytes) <+: [0, 3, 2] := by decide
  exact ⟨hplain, hencrypted⟩

end DefaultWriter

end Protocraft
