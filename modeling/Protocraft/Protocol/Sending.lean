import Protocraft.Protocol.Framing

/-! What fits is sent.

On a transport that never fails a writer with room in its buffer takes whatever it is given, so a
packet that needs no compression is written unless it is too long (`writePacketInternal_fits`). -/
namespace Protocraft
open Protocraft.Stream

namespace Staged
variable {κ ω : Type}

/-- There is nothing in the buffer, but room. -/
def Idle (s : Staged κ ω) : Prop := s.buffer = [] ∧ 0 < s.capacity

/-- Flushed, nothing of what was given is still in the buffer. -/
theorem Delivering.all {received : ω → Bytes} [InPlace κ] {start s : Staged κ ω} {accepted done : Bytes}
    (h : Delivering received start ⟨s, accepted⟩ done)
    (hflushed : received s.writer = received start.writer ++ encoded start.encryptor accepted) :
    s.buffer = [] ∧ s.encryptor = InPlace.machine.after start.encryptor accepted := by
  have hdelivered := h.delivered
  simp only [hflushed, List.append_cancel_left_eq] at hdelivered
  have hlength := congrArg List.length hdelivered
  have hsplit := h.split
  have hstate := h.state
  simp only [encoded, Mealy.length_output] at hlength hsplit hstate
  subst hsplit
  rw [List.length_append] at hlength
  have hempty : s.buffer = [] := List.length_eq_zero_iff.mp (by omega)
  refine ⟨hempty, ?_⟩
  rw [hempty, List.append_nil]
  exact hstate

variable [InPlace κ] [Write ω]

theorem writeOut_capacity (s : Staged κ ω) : (writeOut s).2.capacity = s.capacity := by
  rw [writeOut]
  split <;> rfl

theorem write_capacity (buf : Bytes) (s : Staged κ ω) : (Write.write buf s).2.capacity = s.capacity := by
  show (write buf s).2.capacity = s.capacity
  have hout := writeOut_capacity s
  rw [write]
  split
  · rw [bind_apply]
    rcases hreply : writeOut s with ⟨e | _, s'⟩ <;> rw [hreply] at hout <;> exact hout
  · rfl

theorem flush_capacity (s : Staged κ ω) : (Write.flush s).2.capacity = s.capacity := by
  show (flush s).2.capacity = s.capacity
  have hout := writeOut_capacity s
  rw [flush]
  split
  · rw [bind_apply]
    rcases hreply : writeOut s with ⟨e | _, s'⟩ <;> rw [hreply] at hout <;> exact hout
  · rfl

theorem writeOut_reliable (h : Reliable ω) (s : Staged κ ω) :
    ∃ s', writeOut s = (.ok (), s') ∧ s'.buffer = [] ∧ s'.capacity = s.capacity := by
  obtain ⟨w, hwrite⟩ := writeAll_reliable h s.encrypt.buffer s.writer
  exact ⟨{s.encrypt with writer := w, buffer := []}, by rw [writeOut, hwrite], rfl, rfl⟩

theorem reliably (h : Reliable ω) : Reliably fun s : Staged κ ω => 0 < s.capacity where
  writes := by
    intro s buf hs hbuf
    have hlength := List.length_pos_of_ne_nil hbuf
    by_cases hfull : s.capacity - s.buffer.length = 0
    · obtain ⟨s', hout, hempty, hroom⟩ := writeOut_reliable h s
      have hwrite : Write.write buf s = fill buf s' := by
        show write buf s = _
        rw [write, if_pos hfull, bind_ok hout]
      refine ⟨_, _, hwrite, ?_, by rwa [hroom]⟩
      rw [hempty, hroom, List.length_nil]
      omega
    · have hwrite : Write.write buf s = fill buf s := by
        show write buf s = _
        rw [write, if_neg hfull]
      exact ⟨_, _, hwrite, by omega, hs⟩
  flushes := by
    intro s hs
    obtain ⟨s', hflush⟩ := flush_reliable h s
    have hcapacity := flush_capacity s
    rw [hflush] at hcapacity
    exact ⟨s', hflush, by rwa [hcapacity]⟩

end Staged

namespace DefaultWriter
variable {κ ω : Type}

def capacity (w : DefaultWriter κ ω) : Nat :=
  match w.writer with
  | .standard b => b.capacity
  | .encrypt e => e.capacity

def Idle (w : DefaultWriter κ ω) : Prop := w.buffer = [] ∧ 0 < w.capacity

variable [Write ω]

/-- Whatever is written, the buffer stays as large as it is. -/
theorem capacity_emits (n : Nat) : Emits fun (w : DefaultWriter κ ω) (_ : Bytes) => w.capacity = n := by
  refine Emits.of_write ?_ ?_
  · intro w w' bytes data k hw hwrite
    obtain rfl := congrArg Prod.snd hwrite
    obtain ⟨compressionState, b | e⟩ := w
    · exact (Staged.write_capacity data b).trans hw
    · exact (Staged.write_capacity data e).trans hw
  · intro w w' bytes hw hflush
    obtain rfl := congrArg Prod.snd hflush
    obtain ⟨compressionState, b | e⟩ := w
    · exact (Staged.flush_capacity b).trans hw
    · exact (Staged.flush_capacity e).trans hw

theorem reliably (h : Reliable ω) : Reliably fun w : DefaultWriter κ ω => 0 < w.capacity where
  writes := by
    intro w bytes hw hbytes
    obtain ⟨k, b | e⟩ := w
    · obtain ⟨n, b', hwrite, hn, hb'⟩ := (Staged.reliably h).writes hw hbytes
      exact ⟨n, ⟨k, .standard b'⟩, by rw [Session.Wraps.write (wraps_standard k), hwrite], hn, hb'⟩
    · obtain ⟨n, e', hwrite, hn, he'⟩ := (Staged.reliably h).writes hw hbytes
      exact ⟨n, ⟨k, .encrypt e'⟩, by rw [Session.Wraps.write (wraps_encrypt k), hwrite], hn, he'⟩
  flushes := by
    intro w hw
    obtain ⟨k, b | e⟩ := w
    · obtain ⟨b', hflush, hb'⟩ := (Staged.reliably h).flushes hw
      exact ⟨⟨k, .standard b'⟩, by rw [Session.Wraps.flush (wraps_standard k), hflush], hb'⟩
    · obtain ⟨e', hflush, he'⟩ := (Staged.reliably h).flushes hw
      exact ⟨⟨k, .encrypt e'⟩, by rw [Session.Wraps.flush (wraps_encrypt k), hflush], he'⟩

end DefaultWriter

section Write
variable {ω : Type} [Write ω] {I : ω → Prop}

theorem Reliably.each (h : Reliably I) (turns : Nat) (writes : List Bytes) {w : ω} (hw : I w) :
    ∃ w', writeEach turns writes w = (.ok (), w') ∧ I w' := by
  induction writes generalizing w with
  | nil => exact ⟨w, rfl, hw⟩
  | cons data rest ih =>
    obtain ⟨w₁, hwrite, hw₁⟩ := h.writeAll data hw
    obtain ⟨w', hrest, hw'⟩ := ih hw₁
    have hfirst : Writer.write turns data w = (.ok (), w₁) := mapError_ok hwrite
    exact ⟨w', by rw [writeEach, bind_ok hfirst, hrest], hw'⟩

variable {κ : Type} [Deflate κ]

/-- A packet that is not compressed is written when it is not too long. -/
theorem writePacketInternal_fits (h : Reliable ω) (turns : Nat) {threshold : Option Nat} {id : I32}
    {packet body : Packet} (hwritten : packet.failure = none)
    (hbody : plainBody threshold ⟨id⟩ packet = some body) (hfits : body.size ≤ maxPacketSize)
    {w : DefaultWriter κ ω} (hw : 0 < w.capacity) :
    ∃ w', writePacketInternal turns threshold id packet w = (.ok (), w') := by
  have hfailure : (body.behind (.ofNat body.size)).failure = none := by
    cases threshold <;> simp only [plainBody] at hbody
    · cases hbody
      exact hwritten
    · split at hbody <;> cases hbody
      exact hwritten
  have hframe : ∃ name, ∀ w : DefaultWriter κ ω, writeFrame turns threshold ⟨id⟩ packet w =
      if maxPacketSize < body.size then (.error (.error (.overSized name maxPacketSize body.size)), w)
      else (body.behind (.ofNat body.size)).toWriter turns w := writeFrame_plain hbody
  obtain ⟨name, hframe⟩ := hframe
  obtain ⟨w₁, heach, hw₁⟩ :=
    Reliably.each (DefaultWriter.reliably h) turns (body.behind (.ofNat body.size)).writes hw
  have hwrite : writeFrame turns threshold ⟨id⟩ packet w = (.ok (), w₁) := by
    rw [hframe, if_neg (by omega)]
    exact Packet.toWriter_ok hfailure heach
  obtain ⟨w', hflush, -⟩ := (DefaultWriter.reliably h).flushes hw₁
  refine ⟨w', ?_⟩
  rw [writePacketInternal, bind_ok hwrite]
  exact mapError_ok (mapError_ok hflush)

theorem writePacketInternal_capacity {turns : Nat} {threshold : Option Nat} {id : I32} {packet : Packet}
    (hsize : packet.size = packet.bytes.length) {w w' : DefaultWriter κ ω}
    (hok : writePacketInternal turns threshold id packet w = (.ok (), w')) :
    w'.capacity = w.capacity := by
  obtain ⟨_, w₁, hframe, hflush⟩ := ok_of_bind hok
  have hemits := DefaultWriter.capacity_emits (κ := κ) (ω := ω) w.capacity
  obtain ⟨-, hsends⟩ := @writeFrame_sends _ _ _ _ _ _ _ ⟨threshold, id, packet⟩ hsize hframe
  have hwritten := @hsends _ [] hemits fun _ => rfl
  exact @Emits.flush _ _ _ hemits _ _ _ [] hwritten (ok_of_mapError hflush)

end Write

end Protocraft
