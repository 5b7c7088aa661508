import Protocraft.Error
import Protocraft.Stream.Sink
import Protocraft.Stream.Turn

/-! The traits that packets are written through.

A call may loop without a bound, so each is given a number of turns, and ends in
`Stop.unfinished` when they do not suffice. -/
namespace Protocraft
open Protocraft.Stream

class Writer (ω : Type) where
  write : Nat → Bytes → Action (Stop IoError) ω Unit
  flush : Nat → Action (Stop IoError) ω Unit

/-- Every `std::io::Write` is a writer. -/
instance {ω : Type} [Write ω] : Writer ω where
  write _ data := mapError .error (writeAll data)
  flush _ := mapError .error Write.flush

class PreCompressionWriter (π : Type) extends Writer π where
  finish : π → Nat × Bytes

class CompressionWriter (χ : Type) extends Writer χ where
  initializeWith : Nat → Bytes → Action (Stop IoError) χ Unit

/-- The two writers are borrowed from this one, and given back by the other two functions. -/
class CompressableWriter (ω : Type) (π χ : outParam Type) where
  preCompressionWriter : ω → π
  preCompressed : π → ω → ω
  withCompression : ω → χ
  compressed : χ → ω → ω

/-- What a `ToWriter` writes, slice by slice, what it returns then, and the size that its
`Serializable` declares. -/
structure Packet where
  size : Nat
  writes : List Bytes
  failure : Option WriteError
  deriving DecidableEq

/-- The bytes it emits. -/
def Packet.bytes (packet : Packet) : Bytes := packet.writes.flatten

section Writer
variable {ω : Type} [Writer ω]

def writeEach (turns : Nat) : List Bytes → Action (Stop IoError) ω Unit
  | [] => pure ()
  | data :: rest => do
    Writer.write turns data
    writeEach turns rest

def Packet.toWriter (turns : Nat) (packet : Packet) : Action (Stop WriteError) ω Unit := do
  mapError (Stop.map .streamError) (writeEach turns packet.writes)
  match packet.failure with
  | none => pure ()
  | some e => throw (.error e)

theorem Packet.toWriter_ok {turns : Nat} {packet : Packet} (hwritten : packet.failure = none) {w w' : ω}
    (h : writeEach turns packet.writes w = (.ok (), w')) : packet.toWriter turns w = (.ok (), w') := by
  rw [Packet.toWriter, bind_ok (mapError_ok h), hwritten]
  rfl

/-- A packet that succeeds has not failed, and is written slice by slice. -/
theorem Packet.each_of_ok {turns : Nat} {packet : Packet} {w w' : ω}
    (hok : packet.toWriter turns w = (.ok (), w')) :
    packet.failure = none ∧ writeEach turns packet.writes w = (.ok (), w') := by
  obtain ⟨_, w₁, heach, hreply⟩ := ok_of_bind hok
  cases hfailure : packet.failure with
  | none =>
    rw [hfailure] at hreply
    cases hreply
    exact ⟨rfl, ok_of_mapError heach⟩
  | some e =>
    rw [hfailure] at hreply
    cases hreply

/-- What does not come from the packet comes from the stream. -/
def FromWriter : Stop WriteError → Prop
  | .error (.streamError _) => True
  | .error _ => False
  | .panic => True
  | .unfinished => True

theorem fromWriter_map (e : Stop IoError) : FromWriter (e.map .streamError) := by
  cases e <;> exact trivial

/-- A packet fails with the stream, or with its own failure once all of it is written. -/
theorem Packet.toWriter_failed {turns : Nat} {packet : Packet} {w w' : ω} {e : Stop WriteError}
    (h : packet.toWriter turns w = (.error e, w')) (he : ¬ FromWriter e) :
    ∃ failure, packet.failure = some failure ∧ e = .error failure ∧
      writeEach turns packet.writes w = (.ok (), w') := by
  rw [Packet.toWriter, bind_apply] at h
  rcases heach : writeEach turns packet.writes w with ⟨e₁ | _, w₁⟩
  · rw [mapError_error heach] at h
    cases h
    exact absurd (fromWriter_map e₁) he
  · rw [mapError_ok heach] at h
    dsimp only at h
    cases hfailure : packet.failure <;> rw [hfailure] at h <;> cases h
    exact ⟨_, rfl, rfl, rfl⟩

/-- `E w bytes`: writer `w` has been given `bytes`, all of them by calls that succeeded. -/
structure Emits (E : ω → Bytes → Prop) : Prop where
  write : ∀ {turns w w' bytes data}, E w bytes → Writer.write turns data w = (.ok (), w') →
    E w' (bytes ++ data)
  flush : ∀ {turns w w' bytes}, E w bytes → Writer.flush turns w = (.ok (), w') → E w' bytes

variable {E : ω → Bytes → Prop}

theorem Emits.each (h : Emits E) {turns : Nat} {writes : List Bytes} {w w' : ω} {bytes : Bytes}
    (hw : E w bytes) (hok : writeEach turns writes w = (.ok (), w')) :
    E w' (bytes ++ writes.flatten) := by
  induction writes generalizing w bytes with
  | nil =>
    cases hok
    rwa [List.flatten_nil, List.append_nil]
  | cons data rest ih =>
    obtain ⟨_, w₁, hwrite, hrest⟩ := ok_of_bind hok
    rw [List.flatten_cons, ← List.append_assoc]
    exact ih (h.write hw hwrite) hrest

theorem Emits.packet (h : Emits E) {turns : Nat} {packet : Packet} {w w' : ω} {bytes : Bytes}
    (hw : E w bytes) (hok : packet.toWriter turns w = (.ok (), w')) : E w' (bytes ++ packet.bytes) :=
  h.each hw (Packet.each_of_ok hok).2

/-- More turns make no difference to its calls. -/
structure Writer.Steady (ω : Type) [Writer ω] : Prop where
  write : ∀ data, Stream.Steady fun turns => (Writer.write turns data : Action (Stop IoError) ω Unit)
  flush : Stream.Steady (Writer.flush : Nat → Action (Stop IoError) ω Unit)

theorem Writer.Steady.each (h : Writer.Steady ω) (writes : List Bytes) :
    Stream.Steady fun turns => (writeEach turns writes : Action (Stop IoError) ω Unit) := by
  induction writes with
  | nil => exact Stream.Steady.const _
  | cons data rest ih => exact (h.write data).bind fun _ => ih

theorem Writer.Steady.packet (h : Writer.Steady ω) (packet : Packet) :
    Stream.Steady fun turns => (packet.toWriter turns : Action (Stop WriteError) ω Unit) :=
  ((h.each packet.writes).mapError _).bind fun _ => Stream.Steady.const _

theorem Emits.and (h : Emits E) {E' : ω → Bytes → Prop} (h' : Emits E') :
    Emits (fun w bytes => E w bytes ∧ E' w bytes) where
  write hw hok := ⟨h.write hw.1 hok, h'.write hw.2 hok⟩
  flush hw hok := ⟨h.flush hw.1 hok, h'.flush hw.2 hok⟩

end Writer

/-- For a `std::io::Write` single writes are enough. -/
theorem Emits.of_write {ω : Type} [Write ω] {E : ω → Bytes → Prop}
    (write : ∀ {w w' bytes data n}, E w bytes → Write.write data w = (.ok n, w') →
      E w' (bytes ++ data.take n))
    (flush : ∀ {w w' bytes}, E w bytes → Write.flush w = (.ok (), w') → E w' bytes) : Emits E where
  write := by
    have hloop : ∀ turns {w w' : ω} {bytes data : Bytes}, E w bytes →
        writeAllLoop turns data w = (.ok (), w') → E w' (bytes ++ data) := by
      intro turns
      induction turns with
      | zero =>
        intro w w' bytes data hw hok
        cases data with
        | nil =>
          cases hok
          rwa [List.append_nil]
        | cons b data => cases hok
      | succ turns ih =>
        intro w w' bytes data hw hok
        cases data with
        | nil =>
          cases hok
          rwa [List.append_nil]
        | cons b data =>
          obtain ⟨n, w₁, hwrite, hrest⟩ := ok_of_bind hok
          split at hrest
          · cases hrest
          · have hall := ih (write hw hwrite) hrest
            rwa [List.append_assoc, List.take_append_drop] at hall
    intro turns w w' bytes data hw hok
    exact hloop _ hw (ok_of_mapError hok)
  flush hw hok := flush hw (ok_of_mapError hok)

end Protocraft
