import Protocraft.Defaults.Compression
import Protocraft.Stream.Stored

/-! The buffer of the synchronous pre-compression writer.

It grows ahead of the compressor by three different rules, with a counter of what is written.
At the top of every turn there is room, and nothing is out of range; but a turn that leaves
exactly one byte of the data of a write subtracts two from one (`write_safe_iff`). -/
namespace Protocraft
open Protocraft.Stream

namespace CachedPreCompressionWriter
variable {κ : Type} [Deflate κ]

/-- Where the loop of `write` is entered. -/
def writeEntry (data : Bytes) (w : CachedPreCompressionWriter κ) : CachedPreCompressionWriter κ × Nat :=
  ({w with buffer := resize (w.buffer.length + max 2 (data.length / 2)) w.buffer}, 0)

/-- And that of `flush`. -/
def flushEntry (w : CachedPreCompressionWriter κ) : CachedPreCompressionWriter κ :=
  if w.buffer.length = w.written then
    {w with buffer := resize (max 2 (w.buffer.length * 2)) w.buffer}
  else w

theorem write_eq (turns : Nat) (data : Bytes) (w : CachedPreCompressionWriter κ) :
    write turns data w = ((Turn.run (writeTurn data) turns (writeEntry data w)).1,
      (Turn.run (writeTurn data) turns (writeEntry data w)).2.1) := rfl

theorem flush_eq (turns : Nat) (w : CachedPreCompressionWriter κ) :
    flush turns w = Turn.run flushTurn turns (flushEntry w) := rfl

/-- What the compressor answers in a turn of `write`. -/
def answer (data : Bytes) (t : CachedPreCompressionWriter κ × Nat) : StreamResult :=
  (Deflate.deflate t.1.state (data.drop t.2) (t.1.buffer.length - t.1.written) .none).1

/-- The call came back, with or without an error. -/
def Returned : Except (Stop IoError) Unit → Prop
  | .ok () => True
  | .error (.error _) => True
  | .error _ => False

/-- The writers that calls lead to. -/
inductive Used : CachedPreCompressionWriter κ → Prop
  | fresh (k : κ) : Used ⟨Deflate.reset k, [], 0⟩
  | write {w w' : CachedPreCompressionWriter κ} {turns : Nat} {data : Bytes}
      {reply : Except (Stop IoError) Unit}
      (h : Used w) (hcall : write turns data w = (reply, w')) (hreply : Returned reply) : Used w'
  | flush {w w' : CachedPreCompressionWriter κ} {turns : Nat} {reply : Except (Stop IoError) Unit}
      (h : Used w) (hcall : flush turns w = (reply, w')) (hreply : Returned reply) : Used w'

/-! ### The loops -/

/-- There is room in the buffer, and the data is not overrun. -/
def InRange (data : Bytes) (t : CachedPreCompressionWriter κ × Nat) : Prop :=
  t.2 ≤ data.length ∧ t.1.written < t.1.buffer.length

omit [Deflate κ] in
theorem inRange_entry (data : Bytes) {w : CachedPreCompressionWriter κ}
    (hw : w.written ≤ w.buffer.length) : InRange data (writeEntry data w) := by
  refine ⟨Nat.zero_le _, ?_⟩
  show w.written < (resize _ w.buffer).length
  rw [length_resize]
  omega

theorem InRange.again {data : Bytes} {t t' : CachedPreCompressionWriter κ × Nat} (ht : InRange data t)
    (hturn : writeTurn data t = .again t') : InRange data t' := by
  obtain ⟨w, consumed⟩ := t
  have hconsumed : consumed ≤ data.length := ht.1
  have hwritten : w.written ≤ w.buffer.length := Nat.le_of_lt ht.2
  rcases writeTurn_cases hconsumed hwritten (rfl : _ = (_, _)) with
    ⟨err, -, hexit⟩ | ⟨status, -, ⟨-, hexit⟩ | ⟨-, -, hexit⟩ | ⟨hleft, n, -, hroom, hagain⟩⟩
  · cases hexit.symm.trans hturn
  · cases hexit.symm.trans hturn
  · cases hexit.symm.trans hturn
  · cases hagain.symm.trans hturn
    refine ⟨by dsimp only; omega, ?_⟩
    show _ < (resize n _).length
    rw [length_resize]
    dsimp only
    omega

/-- A turn panics just when the compressor leaves one byte. -/
theorem InRange.panics_iff (h : Deflate.Bounded κ) {data : Bytes}
    {t : CachedPreCompressionWriter κ × Nat} (ht : InRange data t) :
    (∃ t', writeTurn data t = .exit (.error .panic) t') ↔ (answer data t).LeavesOne (data.drop t.2) := by
  obtain ⟨w, consumed⟩ := t
  have hconsumed : consumed ≤ data.length := ht.1
  have hwritten : w.written ≤ w.buffer.length := Nat.le_of_lt ht.2
  rcases hcall : Deflate.deflate w.state (data.drop consumed) (w.buffer.length - w.written) .none
      with ⟨result, state⟩
  have hanswer : answer data (w, consumed) = result := congrArg Prod.fst hcall
  have hbound := (h hcall).1
  rw [hanswer, StreamResult.LeavesOne]
  rw [List.length_drop] at hbound ⊢
  rcases writeTurn_cases hconsumed hwritten hcall with
    ⟨err, herr, hexit⟩ | ⟨status, hok, ⟨hall, hexit⟩ | ⟨hne, hlast, hexit⟩ | ⟨hleft, n, -, -, hagain⟩⟩
  · refine iff_of_false (fun ⟨t', hpanic⟩ => ?_) fun ⟨⟨status, hok⟩, _⟩ => ?_
    · cases hexit.symm.trans hpanic
    · cases herr.symm.trans hok
  · refine iff_of_false (fun ⟨t', hpanic⟩ => ?_) fun ⟨_, hone⟩ => ?_
    · cases hexit.symm.trans hpanic
    · omega
  · exact iff_of_true ⟨_, hexit⟩ ⟨⟨status, hok⟩, by omega⟩
  · refine iff_of_false (fun ⟨t', hpanic⟩ => ?_) fun ⟨_, hone⟩ => ?_
    · cases hagain.symm.trans hpanic
    · omega

/-- And the counter does not pass the end of the buffer. -/
theorem InRange.answered (h : Deflate.Bounded κ) {data : Bytes} {t : CachedPreCompressionWriter κ × Nat}
    (ht : InRange data t) : t.1.written + (answer data t).written.length ≤ t.1.buffer.length := by
  have hbound : (answer data t).written.length ≤ _ := (h rfl).2
  have := ht.2
  omega

theorem InRange.exit {data : Bytes} {t t' : CachedPreCompressionWriter κ × Nat}
    {reply : Except (Stop IoError) Unit} (ht : InRange data t)
    (hturn : writeTurn data t = .exit reply t') : t'.1.written ≤ t'.1.buffer.length := by
  obtain ⟨w, consumed⟩ := t
  have hwritten : w.written ≤ w.buffer.length := Nat.le_of_lt ht.2
  rcases writeTurn_cases ht.1 hwritten (rfl : _ = (_, _)) with
    ⟨err, -, hexit⟩ | ⟨status, -, ⟨-, hexit⟩ | ⟨-, -, hexit⟩ | ⟨hleft, n, -, hroom, hagain⟩⟩
  · cases hexit.symm.trans hturn
    exact Nat.le_trans (Nat.le_add_right _ _) (written_le_overwrite _ hwritten)
  · cases hexit.symm.trans hturn
    exact written_le_overwrite _ hwritten
  · cases hexit.symm.trans hturn
    exact written_le_overwrite _ hwritten
  · cases hagain.symm.trans hturn

omit [Deflate κ] in
theorem flushEntry_room {w : CachedPreCompressionWriter κ} (hw : w.written ≤ w.buffer.length) :
    (flushEntry w).written < (flushEntry w).buffer.length := by
  rw [flushEntry]
  split
  · show w.written < (resize _ w.buffer).length
    rw [length_resize]
    omega
  · omega

theorem flushTurn_room {w w' : CachedPreCompressionWriter κ} (hw : w.written < w.buffer.length)
    (hturn : flushTurn w = .again w') : w'.written < w'.buffer.length := by
  have hwritten := Nat.le_of_lt hw
  rcases hcall : Deflate.deflate w.state [] (w.buffer.length - w.written) .finish with ⟨result, state⟩
  rcases flushTurn_cases hwritten hcall with ⟨err, -, hexit⟩ | ⟨status, -, ⟨-, hexit⟩ | ⟨-, hagain⟩⟩
  · cases hexit.symm.trans hturn
  · cases hexit.symm.trans hturn
  · cases hagain.symm.trans hturn
    have hfront := written_le_overwrite result.written hwritten
    have hlength := length_le_overwrite result.written hwritten
    show _ < (resize _ _).length
    rw [length_resize]
    dsimp only [counted]
    omega

theorem flushTurn_exit {w w' : CachedPreCompressionWriter κ} {reply : Except (Stop IoError) Unit}
    (hw : w.written < w.buffer.length) (hturn : flushTurn w = .exit reply w') :
    w'.written ≤ w'.buffer.length ∧ reply ≠ .error .panic := by
  have hwritten := Nat.le_of_lt hw
  rcases flushTurn_cases hwritten (rfl : _ = (_, _))
      with ⟨err, -, hexit⟩ | ⟨status, -, ⟨-, hexit⟩ | ⟨-, hagain⟩⟩
  · cases hexit.symm.trans hturn
    exact ⟨Nat.le_trans (Nat.le_add_right _ _) (written_le_overwrite _ hwritten), fun h => by cases h⟩
  · cases hexit.symm.trans hturn
    refine ⟨?_, fun h => by cases h⟩
    rw [List.length_take]
    exact Nat.le_min.mpr ⟨Nat.le_refl _, written_le_overwrite _ hwritten⟩
  · cases hagain.symm.trans hturn

/-! ### Runs -/

theorem Returned.finished {reply : Except (Stop IoError) Unit} (h : Returned reply) :
    reply ≠ .error .unfinished := by
  intro he
  rw [he] at h
  exact h

theorem Used.written {w : CachedPreCompressionWriter κ} (hw : Used w) : w.written ≤ w.buffer.length := by
  induction hw with
  | fresh k => exact Nat.le_refl 0
  | @write w w' turns data reply _ hcall hreply ih =>
    rw [write_eq] at hcall
    obtain ⟨hrun, rfl⟩ := Prod.mk.inj hcall
    obtain ⟨t, hreach, hexit⟩ := Turn.exits_iff.mp (Turn.exits_of_run (replied hrun) hreply.finished)
    have hrange : InRange data t := hreach.holds InRange.again (inRange_entry data ih)
    exact hrange.exit hexit
  | @flush w w' turns reply _ hcall hreply ih =>
    rw [flush_eq] at hcall
    obtain ⟨v, hreach, hexit⟩ := Turn.exits_iff.mp (Turn.exits_of_run hcall hreply.finished)
    have hroom : v.written < v.buffer.length :=
      hreach.holds (I := fun v => v.written < v.buffer.length) flushTurn_room (flushEntry_room ih)
    exact (flushTurn_exit hroom hexit).1

/-- **The loops are safe but for one byte.** Whatever calls have come back before, at the top of
every turn of a write the data is not overrun and there is room in the buffer, which the output
then fits; and the write panics, in the subtraction of two, just when in one of its turns the
compressor leaves exactly one byte of the data. A flush always has room, and never panics. -/
theorem write_safe_iff (h : Deflate.Bounded κ) {w : CachedPreCompressionWriter κ} (hw : Used w)
    (data : Bytes) :
    (∀ t, Turn.Reaches (writeTurn data) (writeEntry data w) t → t.2 ≤ data.length ∧
      t.1.written < t.1.buffer.length ∧
        t.1.written + (answer data t).written.length ≤ t.1.buffer.length) ∧
    ((∀ turns, (write turns data w).1 ≠ .error .panic) ↔
      ∀ t, Turn.Reaches (writeTurn data) (writeEntry data w) t →
        ¬ (answer data t).LeavesOne (data.drop t.2)) ∧
    (∀ v, Turn.Reaches flushTurn (flushEntry w) v → v.written < v.buffer.length) ∧
    ∀ turns, (flush turns w).1 ≠ .error .panic := by
  have hrange : ∀ t, Turn.Reaches (writeTurn data) (writeEntry data w) t → InRange data t := by
    intro t hreach
    exact hreach.holds InRange.again (inRange_entry data hw.written)
  have hroom : ∀ v, Turn.Reaches flushTurn (flushEntry w) v → v.written < v.buffer.length := by
    intro v hreach
    exact hreach.holds (I := fun v => v.written < v.buffer.length) flushTurn_room
      (flushEntry_room hw.written)
  refine ⟨fun t hreach => ?_, ⟨fun hsafe t hreach hone => ?_, fun hnever turns hpanic => ?_⟩, hroom,
    fun turns hpanic => ?_⟩
  · exact ⟨(hrange t hreach).1, (hrange t hreach).2, (hrange t hreach).answered h⟩
  · obtain ⟨t', hturn⟩ := ((hrange t hreach).panics_iff h).mpr hone
    obtain ⟨turns, hrun⟩ := (Turn.exits_iff.mpr ⟨t, hreach, hturn⟩).run
    refine hsafe turns ?_
    rw [write_eq]
    exact congrArg Prod.fst (hrun 0)
  · rw [write_eq] at hpanic
    obtain ⟨t, hreach, hexit⟩ := Turn.exits_iff.mp
      (Turn.exits_of_run (replied hpanic) (fun he => by cases he))
    exact hnever t hreach (((hrange t hreach).panics_iff h).mp ⟨_, hexit⟩)
  · rw [flush_eq] at hpanic
    obtain ⟨v, hreach, hexit⟩ := Turn.exits_iff.mp
      (Turn.exits_of_run (replied hpanic) (fun he => by cases he))
    exact (flushTurn_exit (hroom v hreach) hexit).2 rfl

/-- A compressor that keeps its input leaves none of it. -/
theorem write_safe_stored :
    let w : CachedPreCompressionWriter Stored.Deflater :=
      ⟨⟨false, false, [], Stored.adlerStart, [], Stored.start⟩, [], 0⟩
    ∀ turns, (write turns [1, 2, 3] w).1 ≠ .error .panic := by
  intro w
  refine (write_safe_iff Stored.Deflater.bounded (.fresh w.state) [1, 2, 3]).2.1.mpr ?_
  intro t hreach hone
  obtain rfl : t = writeEntry [1, 2, 3] w := by
    refine hreach.holds (I := fun t => t = writeEntry [1, 2, 3] w) ?_ rfl
    intro s s' h hagain
    obtain rfl := h
    cases hagain
  exact absurd hone.2 (by decide)

/-- A compressor that fills the two bytes it is given first with two of three bytes leaves
one. -/
theorem write_underflows :
    Deflate.Bounded Relay ∧ Deflate.Fills Relay ∧
      Used (⟨Relay.mk, [], 0⟩ : CachedPreCompressionWriter Relay) ∧
      (write 1 [1, 2, 3] (⟨Relay.mk, [], 0⟩ : CachedPreCompressionWriter Relay)).1 = .error .panic :=
  ⟨Relay.bounded, Relay.fills, .fresh Relay.mk, rfl⟩

end CachedPreCompressionWriter

end Protocraft
