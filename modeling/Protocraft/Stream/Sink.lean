import Protocraft.Stream.Io

/-! Sinks whose received bytes are known.

`received w` are the bytes sink `w` has taken so far. A lawful sink takes the front
part of each slice that it says it has taken and nothing of one it fails on; it may
fail at any call. `writeAll` then hands over the whole slice or, when it fails, some
front part of it (`writeAll_lawful`). -/
namespace Protocraft.Stream

section Sink
variable {ω : Type} [Write ω]

structure Lawful (received : ω → Bytes) : Prop where
  written : ∀ {w bytes n w'}, Write.write bytes w = (.ok n, w') →
    n ≤ bytes.length ∧ received w' = received w ++ bytes.take n
  refused : ∀ {w bytes e w'}, Write.write bytes w = (.error e, w') → received w' = received w
  flushed : ∀ w, received (Write.flush w).2 = received w

/-- A sink that is itself buffered: what it has taken, `visible w` of it can be seen at the other end,
and all of it once it has been flushed. Writing to it makes nothing visible. -/
structure Hides (received visible : ω → Bytes) : Prop extends Lawful received where
  within : ∀ w, visible w <+: received w
  hidden : ∀ bytes w, visible (Write.write bytes w).2 = visible w
  shown : ∀ {w w'}, Write.flush w = (.ok (), w') → visible w' = received w'

/-- A sink that never fails, and takes something of every slice that has bytes. -/
structure Reliable (ω : Type) [Write ω] : Prop where
  writes : ∀ (w : ω) (bytes : Bytes), bytes ≠ [] → ∃ n w', Write.write bytes w = (.ok n, w') ∧ 0 < n
  flushes : ∀ w : ω, ∃ w', Write.flush w = (.ok (), w')

variable {received : ω → Bytes}

theorem writeAllLoop_lawful (h : Lawful received) (turns : Nat) (bytes : Bytes) (w : ω) :
    ∃ n ≤ bytes.length, received (writeAllLoop turns bytes w).2 = received w ++ bytes.take n ∧
      ((writeAllLoop turns bytes w).1 = .ok () ↔ n = bytes.length) := by
  induction turns generalizing bytes w with
  | zero =>
    cases bytes with
    | nil => exact ⟨0, Nat.le_refl 0, by simp [writeAllLoop], by simp [writeAllLoop]⟩
    | cons b bytes => exact ⟨0, Nat.zero_le _, by simp [writeAllLoop], by simp [writeAllLoop]⟩
  | succ turns ih =>
    cases bytes with
    | nil => exact ⟨0, Nat.le_refl 0, by simp [writeAllLoop], by simp [writeAllLoop]⟩
    | cons b bytes =>
      unfold writeAllLoop
      rcases hwrite : Write.write (b :: bytes) w with ⟨e | n, w'⟩
      · rw [bind_error hwrite]
        exact ⟨0, Nat.zero_le _, by simp [h.refused hwrite], by simp⟩
      · rw [bind_ok hwrite]
        obtain ⟨hn, hreceived⟩ := h.written hwrite
        by_cases hzero : n = 0
        · subst hzero
          exact ⟨0, Nat.zero_le _, by simpa using hreceived, by simp⟩
        · rw [if_neg hzero]
          obtain ⟨k, hk, hrest, hwhole⟩ := ih ((b :: bytes).drop n) w'
          rw [List.length_drop] at hk hwhole
          refine ⟨n + k, by omega, ?_, hwhole.trans (by omega)⟩
          rw [hrest, hreceived, List.append_assoc, List.take_add]

theorem writeAll_lawful (h : Lawful received) (bytes : Bytes) (w : ω) :
    ∃ n ≤ bytes.length, received (writeAll bytes w).2 = received w ++ bytes.take n ∧
      ((writeAll bytes w).1 = .ok () ↔ n = bytes.length) :=
  writeAllLoop_lawful h bytes.length bytes w

theorem writeAll_ok (h : Lawful received) {bytes : Bytes} {w w' : ω}
    (hwrite : writeAll bytes w = (.ok (), w')) : received w' = received w ++ bytes := by
  obtain ⟨n, -, hreceived, hwhole⟩ := writeAll_lawful h bytes w
  rw [hwrite] at hreceived hwhole
  rw [hreceived, hwhole.mp rfl, List.take_length]

theorem writeAllLoop_reliable (h : Reliable ω) (turns : Nat) (bytes : Bytes)
    (hturns : bytes.length ≤ turns) (w : ω) : ∃ w', writeAllLoop turns bytes w = (.ok (), w') := by
  induction turns generalizing bytes w with
  | zero =>
    obtain rfl : bytes = [] := List.length_eq_zero_iff.mp (by omega)
    exact ⟨w, rfl⟩
  | succ turns ih =>
    cases bytes with
    | nil => exact ⟨w, rfl⟩
    | cons b bytes =>
      obtain ⟨n, w', hwrite, hn⟩ := h.writes w (b :: bytes) (List.cons_ne_nil b bytes)
      obtain ⟨w'', hrest⟩ := ih ((b :: bytes).drop n) (by
        rw [List.length_drop]
        simp only [List.length_cons] at hturns ⊢
        omega) w'
      refine ⟨w'', ?_⟩
      rw [writeAllLoop, bind_ok hwrite, if_neg (by omega), hrest]

theorem writeAll_reliable (h : Reliable ω) (bytes : Bytes) (w : ω) :
    ∃ w', writeAll bytes w = (.ok (), w') :=
  writeAllLoop_reliable h bytes.length bytes (Nat.le_refl _) w

/-- The same of the writers of which `I` holds, as long as it does. -/
structure Reliably (I : ω → Prop) : Prop where
  writes : ∀ {w bytes}, I w → bytes ≠ [] → ∃ n w', Write.write bytes w = (.ok n, w') ∧ 0 < n ∧ I w'
  flushes : ∀ {w}, I w → ∃ w', Write.flush w = (.ok (), w') ∧ I w'

theorem Reliably.writeAll {I : ω → Prop} (h : Reliably I) (bytes : Bytes) {w : ω} (hw : I w) :
    ∃ w', Stream.writeAll bytes w = (.ok (), w') ∧ I w' := by
  have hloop : ∀ turns (bytes : Bytes) {w : ω}, bytes.length ≤ turns → I w →
      ∃ w', writeAllLoop turns bytes w = (.ok (), w') ∧ I w' := by
    intro turns
    induction turns with
    | zero =>
      intro bytes w hturns hw
      obtain rfl : bytes = [] := List.length_eq_zero_iff.mp (by omega)
      exact ⟨w, rfl, hw⟩
    | succ turns ih =>
      intro bytes w hturns hw
      cases bytes with
      | nil => exact ⟨w, rfl, hw⟩
      | cons b bytes =>
        obtain ⟨n, w₁, hwrite, hn, hw₁⟩ := h.writes hw (List.cons_ne_nil b bytes)
        have hrest : ((b :: bytes).drop n).length ≤ turns := by
          simp only [List.length_drop, List.length_cons] at hturns ⊢
          omega
        obtain ⟨w', hwrites, hw'⟩ := ih _ hrest hw₁
        exact ⟨w', by rw [writeAllLoop, bind_ok hwrite, if_neg (by omega), hwrites], hw'⟩
  exact hloop _ bytes (Nat.le_refl _) hw

end Sink

/-! ### Sessions -/

inductive WriteOp where
  | write (buf : Bytes)
  | flush
  deriving DecidableEq, Repr

/-- The bytes offered. -/
def WriteOp.bytes : WriteOp → Bytes
  | write buf => buf
  | flush => []

/-- The call, with the number of bytes it accepted. -/
def WriteOp.perform {ω : Type} [Write ω] : WriteOp → Action IoError ω Nat
  | write buf => Write.write buf
  | flush => do
    Write.flush
    return 0

theorem WriteOp.perform_flush {ω : Type} [Write ω] (w : ω) :
    WriteOp.flush.perform w = ((Write.flush w).1.map fun _ => 0, (Write.flush w).2) := by
  show (Write.flush >>= fun _ => pure 0) w = _
  rw [bind_apply]
  rcases Write.flush w with ⟨e | _, w'⟩ <;> rfl

/-- A writer and the bytes its caller has been told were accepted. -/
structure Session (ω : Type) where
  writer : ω
  accepted : Bytes

def Session.map {ω ω' : Type} (f : ω → ω') (s : Session ω) : Session ω' := ⟨f s.writer, s.accepted⟩

namespace Session
variable {ω ω' : Type} [Write ω] [Write ω']

/-- A call, whatever comes of it. -/
def step (s : Session ω) (op : WriteOp) : Session ω :=
  match op.perform s.writer with
  | (.ok n, w) => ⟨w, s.accepted ++ op.bytes.take n⟩
  | (.error _, w) => ⟨w, s.accepted⟩

def run (s : Session ω) (ops : List WriteOp) : Session ω := ops.foldl step s

@[simp] theorem run_nil (s : Session ω) : s.run [] = s := rfl

@[simp] theorem run_cons (s : Session ω) (op : WriteOp) (ops : List WriteOp) :
    s.run (op :: ops) = (s.step op).run ops := rfl

theorem step_ok {s : Session ω} {op : WriteOp} {n : Nat} {w : ω}
    (h : op.perform s.writer = (.ok n, w)) : s.step op = ⟨w, s.accepted ++ op.bytes.take n⟩ := by
  rw [step, h]

theorem step_error {s : Session ω} {op : WriteOp} {e : IoError} {w : ω}
    (h : op.perform s.writer = (.error e, w)) : s.step op = ⟨w, s.accepted⟩ := by
  rw [step, h]

/-- `f` wraps a writer and passes its calls on. -/
structure Wraps (f : ω → ω') : Prop where
  write : ∀ buf w, Write.write buf (f w) = ((Write.write buf w).1, f (Write.write buf w).2)
  flush : ∀ w, Write.flush (f w) = ((Write.flush w).1, f (Write.flush w).2)

variable {f : ω → ω'}

theorem Wraps.perform (h : Wraps f) (op : WriteOp) (w : ω) :
    op.perform (f w) = ((op.perform w).1, f (op.perform w).2) := by
  cases op with
  | write buf => exact h.write buf w
  | flush => rw [WriteOp.perform_flush, WriteOp.perform_flush, h.flush]

theorem Wraps.step (h : Wraps f) (s : Session ω) (op : WriteOp) :
    (s.map f).step op = (s.step op).map f := by
  have hperform' := h.perform op s.writer
  rcases hperform : op.perform s.writer with ⟨e | n, w⟩ <;> rw [hperform] at hperform'
  · rw [step_error hperform, step_error hperform']
    rfl
  · rw [step_ok hperform, step_ok hperform']
    rfl

/-- A wrapped writer goes through the same session. -/
theorem Wraps.run (h : Wraps f) (s : Session ω) (ops : List WriteOp) :
    (s.map f).run ops = (s.run ops).map f := by
  induction ops generalizing s with
  | nil => rfl
  | cons op ops ih => rw [run_cons, run_cons, h.step, ih]

end Session

/-! ### Sinks to try things on -/

/-- Takes everything. -/
structure Collected where
  bytes : Bytes
  deriving DecidableEq, Repr

instance : Write Collected where
  write bytes := fun c => (.ok bytes.length, ⟨c.bytes ++ bytes⟩)
  flush := pure ()

theorem Collected.lawful : Lawful Collected.bytes where
  written := by
    intro s bytes n w' hwrite
    obtain ⟨b⟩ := s
    cases hwrite
    simp
  refused := by
    intro s bytes e w' hwrite
    obtain ⟨b⟩ := s
    cases hwrite
  flushed _ := rfl

theorem Collected.reliable : Reliable Collected where
  writes := by
    intro s bytes hne
    obtain ⟨b⟩ := s
    exact ⟨bytes.length, _, rfl, List.length_pos_iff.mpr hne⟩
  flushes w := ⟨w, rfl⟩

/-- Holds everything back until it is flushed. -/
structure Held where
  visible : Bytes
  held : Bytes
  deriving DecidableEq, Repr

namespace Held

def received (h : Held) : Bytes := h.visible ++ h.held

instance : Write Held where
  write bytes := fun h => (.ok bytes.length, ⟨h.visible, h.held ++ bytes⟩)
  flush := fun h => (.ok (), ⟨h.received, []⟩)

theorem hides : Hides received visible where
  written := by
    intro w bytes n w' hwrite
    cases hwrite
    exact ⟨Nat.le_refl _, by simp [received]⟩
  refused := by
    intro w bytes e w' hwrite
    cases hwrite
  flushed w := List.append_nil _
  within w := List.prefix_append _ _
  hidden _ _ := rfl
  shown := by
    intro w w' hflush
    cases hflush
    exact (List.append_nil _).symm

end Held

/-- Answers each write as its script says: a count to accept at most, or an error;
everything once the script is over. -/
structure Scripted where
  answers : List (Except IoError Nat)
  bytes : Bytes
  deriving DecidableEq

instance : Write Scripted where
  write bytes := fun s => match s.answers with
    | [] => (.ok bytes.length, ⟨[], s.bytes ++ bytes⟩)
    | .ok n :: answers => (.ok (min n bytes.length), ⟨answers, s.bytes ++ bytes.take n⟩)
    | .error e :: answers => (.error e, ⟨answers, s.bytes⟩)
  flush := pure ()

theorem Scripted.lawful : Lawful Scripted.bytes where
  written := by
    intro s bytes k w' hwrite
    obtain ⟨_ | ⟨e | n, answers⟩, b⟩ := s <;> cases hwrite
    · simp
    · exact ⟨Nat.min_le_right _ _, by simp [List.take_eq_take_iff]⟩
  refused := by
    intro s bytes e' w' hwrite
    obtain ⟨_ | ⟨e | n, answers⟩, b⟩ := s <;> cases hwrite
    rfl
  flushed _ := rfl

end Protocraft.Stream
