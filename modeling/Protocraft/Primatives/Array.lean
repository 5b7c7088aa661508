import Protocraft.Primatives.Composite

/-! What becomes of the values while an array is read.

The array starts with nothing in its slots. Each value that is read is assigned to the next
slot, which drops what the slot held, and a value that cannot be read ends it: every slot is
dropped. So no value is lost and none is dropped twice, but every slot is dropped once while
nothing is in it, by its assignment or with the array (`Decoded.Accounted`). -/
namespace Protocraft
open Protocraft.Stream

/-- `Box<T>`. -/
structure Box (α : Type) where
  value : α
  deriving DecidableEq, Repr

instance {α : Type} [FromReader α] : FromReader (Box α) where
  fromReader := do
    let value ← FromReader.fromReader
    return ⟨value⟩

/-- The array under construction: what is in its slots, the values that were read for them, and
what was in slots when they were dropped. -/
structure Buf (α : Type) where
  slots : List (Option α)
  returned : List α
  dropped : List (Option α)

namespace Buf
variable {α : Type}

/-- `MaybeUninit::uninit().assume_init()`. -/
def uninit (n : Nat) : Buf α := ⟨List.replicate n none, [], []⟩

/-- A value that was read. -/
def read (t : α) (buf : Buf α) : Buf α := {buf with returned := buf.returned ++ [t]}

/-- `*item = t`. -/
def assign (index : Nat) (t : α) (buf : Buf α) : Buf α :=
  {buf with slots := buf.slots.set index (some t), dropped := buf.dropped ++ buf.slots[index]?.toList}

end Buf

/-- How reading an array ended. -/
structure Decoded (α : Type) where
  result : Except ReadError (List (Option α))
  returned : List α
  dropped : List (Option α)

namespace Decoded
variable {α : Type}

/-- What is in the array that was returned. -/
def kept (d : Decoded α) : List (Option α) :=
  match d.result with
  | .ok slots => slots
  | .error _ => []

/-- Only values that were read are dropped, and each of these is in the array or dropped, once. -/
structure Owned (d : Decoded α) : Prop where
  dropped : ∀ slot ∈ d.dropped, ∃ t ∈ d.returned, slot = some t
  once : ((d.kept ++ d.dropped).filterMap id).Perm d.returned

end Decoded

section Loop
variable {α β : Type}

/-- `for item in &mut buf`, over the slots that are left. -/
def readSlots (fromReader : Program ReadError β α) : List Nat → Buf α → Program ReadError β (Decoded α)
  | [], buf => return ⟨.ok buf.slots, buf.returned, buf.dropped⟩
  | index :: indices, buf => do
    match ← fromReader.attempt with
    | .ok t => readSlots fromReader indices ((buf.read t).assign index t)
    | .error e => return ⟨.error e, buf.returned, buf.dropped ++ buf.slots⟩

/-- `from_reader` of `[T; N]`. -/
def decodeArray (α : Type) [FromReader α] (n : Nat) : Program ReadError β (Decoded α) :=
  readSlots FromReader.fromReader (List.range n) (.uninit n)

end Loop

/-! ### Slot by slot -/

section Filled
variable {α : Type} {n : Nat}

/-- As many slots hold values as were read, and as many were dropped, with nothing in them. -/
structure Filled (n : Nat) (buf : Buf α) : Prop where
  slots : buf.slots = buf.returned.map some ++ List.replicate (n - buf.returned.length) none
  dropped : buf.dropped = List.replicate buf.returned.length none

theorem Filled.uninit (n : Nat) : Filled n (.uninit n : Buf α) := ⟨rfl, rfl⟩

theorem Filled.assign {buf : Buf α} (h : Filled n buf) (hleft : buf.returned.length < n) (t : α) :
    Filled n ((buf.read t).assign buf.returned.length t) := by
  obtain ⟨left, hn⟩ : ∃ left, n - buf.returned.length = left + 1 :=
    ⟨n - buf.returned.length - 1, by omega⟩
  have hslot : buf.slots[buf.returned.length]? = some none := by
    rw [h.slots, hn, List.getElem?_append_right (by simp)]
    simp
  constructor
  · have hnext : n - (buf.returned.length + 1) = left := by omega
    simp only [Buf.assign, Buf.read, h.slots, hn, List.length_append, List.length_singleton, hnext]
    rw [List.set_append_right _ _ (by simp), List.length_map, Nat.sub_self, List.replicate_succ,
      List.set_cons_zero]
    simp
  · simp only [Buf.assign, Buf.read, hslot, h.dropped, List.length_append, List.length_singleton]
    exact (List.replicate_succ' ..).symm

end Filled

/-- All that was read is in the array; or, when a value could not be read, has been dropped. And
there was nothing in `n` slots that were dropped. -/
inductive Decoded.Accounted {α : Type} (n : Nat) : Decoded α → Prop
  | whole {values : List α} (hlength : values.length = n) :
    Accounted n ⟨.ok (values.map some), values, List.replicate n none⟩
  | early {values : List α} (e : ReadError) (hlength : values.length < n) :
    Accounted n ⟨.error e, values,
      List.replicate values.length none ++ (values.map some ++ List.replicate (n - values.length) none)⟩

namespace Decoded.Accounted
variable {α : Type} {n : Nat} {d : Decoded α}

theorem countP_none (h : d.Accounted n) : d.dropped.countP Option.isNone = n := by
  cases h with
  | whole => simp [List.countP_replicate]
  | @early values e hlength =>
    have hvalues : (values.map some).countP Option.isNone = 0 := by simp [List.countP_eq_zero]
    rw [List.countP_append, List.countP_append, hvalues, List.countP_replicate, List.countP_replicate]
    simp only [Option.isNone_none, if_true]
    omega

theorem once (h : d.Accounted n) : ((d.kept ++ d.dropped).filterMap id).Perm d.returned := by
  cases h with
  | whole => simp [kept]
  | early => simp [kept]

theorem owned_iff (h : d.Accounted n) : d.Owned ↔ n = 0 := by
  constructor
  · intro howned
    rw [← h.countP_none, List.countP_eq_zero]
    intro slot hslot
    obtain ⟨t, -, rfl⟩ := howned.dropped slot hslot
    simp
  · intro hn
    refine ⟨fun slot hslot => ?_, h.once⟩
    cases h with
    | whole =>
      subst hn
      cases hslot
    | early e hlength => omega

end Decoded.Accounted

section Run
variable {α β : Type} [FromReader α] {ρ : Type} [Read ρ]

/-- The loop from any slot on: what it returns is what is read. -/
theorem readSlots_run (rem : ρ → β) {n m : Nat} {buf : Buf α} (h : Filled n buf)
    (hm : buf.returned.length + m = n) (r : ρ) : ∃ d reply r',
      (readSlots FromReader.fromReader (List.range' buf.returned.length m) buf).run rem r = (.ok d, r') ∧
      (readArray m : Program ReadError β (List.Vector α m)).run rem r = (reply, r') ∧ d.Accounted n ∧
      d.result = reply.map fun rest => (buf.returned ++ rest.toList).map some := by
  induction m generalizing buf r with
  | zero =>
    have hslots : buf.slots = buf.returned.map some := by
      rw [h.slots, ← hm]
      simp
    refine ⟨_, _, _, rfl, rfl, ?_, ?_⟩
    · rw [hslots, h.dropped, show buf.returned.length = n from hm]
      exact .whole hm
    · rw [hslots]
      simp [Except.map]
  | succ m ih =>
    rw [List.range'_succ, readSlots]
    have hattempt :=
      @Program.run_attempt _ ReadError _ _ _ _ rem (FromReader.fromReader : Program ReadError β α) r
    rcases hread : (FromReader.fromReader : Program ReadError β α).run rem r with ⟨e | t, r₁⟩ <;>
      rw [hread] at hattempt
    · refine ⟨_, .error e, r₁, Program.run_bind_ok hattempt, Program.run_bind_error hread, ?_, rfl⟩
      rw [h.dropped, h.slots]
      exact .early e (by omega)
    · have hnext : ((buf.read t).assign buf.returned.length t).returned.length =
          buf.returned.length + 1 := by
        simp [Buf.assign, Buf.read]
      obtain ⟨d, reply, r', hrun, harray, haccounted, hresult⟩ :=
        ih (h.assign (by omega) t) (by omega) r₁
      rw [hnext] at hrun
      refine ⟨d, reply.map fun rest => t ::ᵥ rest, r', (Program.run_bind_ok hattempt).trans hrun,
        ?_, haccounted, ?_⟩
      · rw [readArray, Program.run_bind_ok hread]
        cases reply with
        | ok rest => exact Program.run_bind_ok harray
        | error e => exact Program.run_bind_error harray
      · rw [hresult]
        cases reply <;> simp [Except.map, Buf.assign, Buf.read]

end Run

/-- **An array drops what it never read**, once for each of its slots, and nothing else goes wrong:
every value that was read is returned with the array or dropped, once. -/
theorem array_owned_iff (α : Type) [FromReader α] {ρ : Type} [Read ρ] (n : Nat) (r : ρ) : ∃ d reply r',
    (decodeArray α n).onReader r = (.ok d, r') ∧
    (FromReader.fromReader.onReader r : Except ReadError (List.Vector α n) × ρ) = (reply, r') ∧
    d.result = reply.map (fun v => v.toList.map some) ∧ (d.Owned ↔ n = 0) ∧
    d.dropped.countP Option.isNone = n ∧ ((d.kept ++ d.dropped).filterMap id).Perm d.returned := by
  obtain ⟨d, reply, r', hrun, harray, haccounted, hresult⟩ :=
    readSlots_run (fun _ => ()) (Filled.uninit (α := α) n) (Nat.zero_add n) r
  rw [show (Buf.uninit n : Buf α).returned.length = 0 from rfl, ← List.range_eq_range'] at hrun
  exact ⟨d, reply, r', hrun, harray, hresult, haccounted.owned_iff, haccounted.countP_none,
    haccounted.once⟩

/-- An array of one box, and of two of which only one comes: the slots are dropped with nothing in
them. -/
theorem array_owned_box :
    (∃ d r', (decodeArray (Box Primative.u8.Value) 1).onReader (⟨[7]⟩ : Slice) = (.ok d, r') ∧
      d.result = .ok [some ⟨7⟩] ∧ d.dropped = [none] ∧ ¬ d.Owned) ∧
    ∃ d r', (decodeArray (Box Primative.u8.Value) 2).onReader (⟨[7]⟩ : Slice) = (.ok d, r') ∧
      d.result = .error (.streamError failedToFill) ∧ d.dropped = [none, some ⟨7⟩, none] ∧
        ¬ d.Owned := by
  have hgarbage : ∀ d : Decoded (Box Primative.u8.Value), none ∈ d.dropped → ¬ d.Owned := by
    intro d hnone howned
    obtain ⟨t, -, ht⟩ := howned.dropped none hnone
    cases ht
  exact ⟨⟨_, _, rfl, rfl, rfl, hgarbage _ List.mem_cons_self⟩,
    ⟨_, _, rfl, rfl, rfl, hgarbage _ List.mem_cons_self⟩⟩

end Protocraft
