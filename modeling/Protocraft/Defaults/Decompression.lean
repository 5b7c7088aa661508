import Protocraft.Stream.Codec
import Protocraft.Stream.Poll
import Protocraft.Stream.Loops
import Protocraft.Stream.Source

/-! The decompressing reader.

A read is one fill of the reader underneath and one call of the decompressor, and its
count is what that call wrote. The decompressor may use input without writing anything,
and then the read returns none, which its callers take for the end of the stream: over
a log of the calls, the reader delivers the decompressed bytes unless one of the calls
was silent (`DecompressionReader.yields`). It moves the reader underneath by what the
calls used, whatever they wrote (`DecompressionReader.read_consuming`). -/
namespace Protocraft
open Protocraft.Stream

structure DecompressionReader (ι ρ : Type) where
  state : ι
  reader : ρ

namespace DecompressionReader
variable {ι ρ : Type} [Inflate ι]

def read [BufRead ρ] (n : Nat) : Action IoError (DecompressionReader ι ρ) Bytes := fun d =>
  match BufRead.fillBuf d.reader with
  | (.error e, reader) => (.error e, {d with reader := reader})
  | (.ok internalBuf, reader) =>
    match Inflate.inflate d.state internalBuf n with
    | (⟨_, _, .error err⟩, state) =>
      (.error ⟨.other, "Decompression error: " ++ err.debug⟩, ⟨state, reader⟩)
    | (⟨bytesConsumed, out, .ok _⟩, state) => (.ok out, ⟨state, BufRead.consume bytesConsumed reader⟩)

instance [BufRead ρ] : Read (DecompressionReader ι ρ) := ⟨read⟩

instance [SetBlocking ρ] : SetBlocking (DecompressionReader ι ρ) where
  setBlocking blocking := fun d =>
    ((SetBlocking.setBlocking blocking d.reader).1,
      {d with reader := (SetBlocking.setBlocking blocking d.reader).2})

/-- The reader without the log of its calls. -/
def unlogged (d : DecompressionReader (Logged ι) ρ) : DecompressionReader ι ρ :=
  ⟨d.state.state, d.reader⟩

section Read
variable [BufRead ρ] {d : DecompressionReader ι ρ} {reader : ρ} {n : Nat}

theorem read_unfilled {e : IoError} (hfill : BufRead.fillBuf d.reader = (.error e, reader)) :
    Read.read n d = (.error e, ⟨d.state, reader⟩) := by
  show read n d = _
  simp only [read, hfill]

theorem read_refused {buf out : Bytes} {bytesConsumed : Nat} {err : MZError} {state : ι}
    (hfill : BufRead.fillBuf d.reader = (.ok buf, reader))
    (hcall : Inflate.inflate d.state buf n = (⟨bytesConsumed, out, .error err⟩, state)) :
    Read.read n d = (.error ⟨.other, "Decompression error: " ++ err.debug⟩, ⟨state, reader⟩) := by
  show read n d = _
  simp only [read, hfill, hcall]

theorem read_ok {buf out : Bytes} {bytesConsumed : Nat} {status : MZStatus} {state : ι}
    (hfill : BufRead.fillBuf d.reader = (.ok buf, reader))
    (hcall : Inflate.inflate d.state buf n = (⟨bytesConsumed, out, .ok status⟩, state)) :
    Read.read n d = (.ok out, ⟨state, BufRead.consume bytesConsumed reader⟩) := by
  show read n d = _
  simp only [read, hfill, hcall]

end Read

theorem read_keeps [BufRead ρ] {I : ρ → Prop} (h : Kept I) (n : Nat) :
    Keeps (fun d : DecompressionReader ι ρ => I d.reader) (Read.read n) := by
  intro d hd
  have hreader := h.fill d.reader hd
  rcases hfill : BufRead.fillBuf d.reader with ⟨e | buf, reader⟩ <;> rw [hfill] at hreader
  · rw [read_unfilled hfill]
    exact hreader
  · rcases hcall : Inflate.inflate d.state buf n with ⟨⟨bytesConsumed, out, err | status⟩, state⟩
    · rw [read_refused hfill hcall]
      exact hreader
    · rw [read_ok hfill hcall]
      exact h.consume bytesConsumed hreader

/-- The log changes nothing. -/
theorem unlogged_passes [BufRead ρ] :
    Passes (unlogged : DecompressionReader (Logged ι) ρ → DecompressionReader ι ρ) := by
  intro n d
  rcases hfill : BufRead.fillBuf d.reader with ⟨e | buf, reader⟩
  · rw [read_unfilled hfill, read_unfilled (show BufRead.fillBuf (unlogged d).reader = _ from hfill)]
    rfl
  · rcases hcall : Inflate.inflate d.state.state buf n with ⟨⟨bytesConsumed, out, err | status⟩, state⟩
    · rw [read_refused hfill (Logged.inflate hcall),
        read_refused (show BufRead.fillBuf (unlogged d).reader = _ from hfill) hcall]
      rfl
    · rw [read_ok hfill (Logged.inflate hcall),
        read_ok (show BufRead.fillBuf (unlogged d).reader = _ from hfill) hcall]
      rfl

section Delivery
variable [BufRead ρ] {D : ι → Bytes → Bytes → Prop} {R : ρ → Bytes → Prop}

/-- The reader underneath holds compressed bytes that yield `plain` from here. -/
def Inflating (D : ι → Bytes → Bytes → Prop) (R : ρ → Bytes → Prop) (d : DecompressionReader ι ρ)
    (plain : Bytes) : Prop :=
  ∃ z, R d.reader z ∧ D d.state z plain

/-- The same, with a log. -/
def InflatingLogged (D : ι → Bytes → Bytes → Prop) (R : ρ → Bytes → Prop)
    (d : DecompressionReader (Logged ι) ρ) (plain : Bytes) : Prop :=
  Inflating D R d.unlogged plain

/-- One read is one call, on the front of the compressed bytes that the fill gave. -/
theorem fill_inflating (h : Decoding D) (hR : Fills R) {s : ι} {r : ρ} {z plain : Bytes} {n : Nat}
    (hn : 0 < n) (hplain : plain ≠ []) (hr : R r z) (hz : D s z plain) :
    ∃ buf r' status consumed written s' plain',
      BufRead.fillBuf r = (.ok buf, r') ∧
      Inflate.inflate s buf n = (⟨consumed, written, .ok status⟩, s') ∧
      plain = written ++ plain' ∧ written.length ≤ n ∧
      R (BufRead.consume consumed r') (z.drop consumed) ∧ D s' (z.drop consumed) plain' := by
  obtain ⟨buf, r', hfill, -, hbuf, hne, hconsume⟩ := hR.fill hr
  obtain ⟨status, consumed, written, s', plain', hcall, hconsumed, hroom, rfl, hz'⟩ :=
    h.step hz hplain hn hbuf hne
  exact ⟨buf, r', status, consumed, written, s', plain', hfill, hcall, rfl, hroom,
    hconsume consumed hconsumed, hz'⟩

/-- **The decompressed bytes come in order**, unless a call writes nothing: then the
reader has stalled. -/
theorem yields (h : Decoding D) (hR : Fills R) :
    Yields (InflatingLogged D R) (fun d => d.state.Silent) where
  more := by
    intro d plain n hn hplain h
    obtain ⟨z, hr, hz⟩ := h
    obtain ⟨buf, r', status, consumed, written, s', plain', hfill, hcall, rfl, hroom, hr', hz'⟩ :=
      fill_inflating h hR hn hplain hr hz
    have hfill' : BufRead.fillBuf d.reader = (.ok buf, r') := hfill
    refine ⟨written, plain', _, read_ok hfill' (Logged.inflate hcall), rfl, hroom, ⟨_, hr', hz'⟩,
      ?_, ?_, ?_⟩
    · exact fun he => ⟨_, List.mem_append_right _ (List.mem_singleton_self _), he⟩
    · intro h
      obtain ⟨call, hmem, he⟩ := h
      exact ⟨call, List.mem_append_left _ hmem, he⟩
    · intro hwritten h
      obtain ⟨call, hmem, he⟩ := h
      rcases List.mem_append.mp hmem with hmem | hmem
      · exact ⟨call, hmem, he⟩
      · rw [List.mem_singleton.mp hmem] at he
        exact absurd he hwritten

/-- Over a reader with all that is left in each fill nothing stalls. -/
theorem yields_whole (h : Decoding D) (hR : Fills R) (hwhole : Whole R) :
    Yields (Inflating D R) (fun _ : DecompressionReader ι ρ => False) where
  more := by
    intro d plain n hn hplain h
    obtain ⟨z, hr, hz⟩ := h
    obtain ⟨buf, r', status, consumed, written, s', plain', hfill, hcall, rfl, hroom, hr', hz'⟩ :=
      fill_inflating h hR hn hplain hr hz
    obtain rfl := hwhole hr hfill
    have hwritten := h.whole hz hplain hn
    rw [hcall] at hwritten
    exact ⟨written, plain', _, read_ok hfill hcall, rfl, hroom, ⟨_, hr', hz'⟩,
      fun he => hwritten he, id, fun _ => id⟩

/-- The compressed bytes yield `plain`, and are used up when that is. -/
def Deflated (D : ι → Bytes → Bytes → Prop) (R : ρ → Bytes → Prop) (d : DecompressionReader ι ρ)
    (plain : Bytes) : Prop :=
  ∃ z, R d.reader z ∧ if plain = [] then z = [] else D d.state z plain

/-- So it is over such a reader with an ideal decompressor. -/
theorem yields_ideal (h : Ideal D) (hR : Fills R) (hwhole : Whole R) :
    Yields (Deflated D R) (fun _ : DecompressionReader ι ρ => False) where
  more := by
    intro d plain n hn hplain h
    obtain ⟨z, hr, hz⟩ := h
    rw [if_neg hplain] at hz
    obtain ⟨buf, r', status, consumed, written, s', plain', hfill, hcall, rfl, hroom, hr', hz'⟩ :=
      fill_inflating h.toDecoding hR hn hplain hr hz
    obtain rfl := hwhole hr hfill
    have hwritten := h.whole hz hplain hn
    have hused := h.consumes hz hplain hn
    rw [hcall] at hwritten hused
    refine ⟨written, plain', _, read_ok hfill hcall, rfl, hroom, ⟨_, hr', ?_⟩,
      fun he => hwritten he, id, fun _ => id⟩
    by_cases hplain' : plain' = []
    · have hall : consumed = buf.length := hused (by rw [hplain', List.append_nil])
      rw [if_pos hplain', hall, List.drop_length]
    · rw [if_neg hplain']
      exact hz'

end Delivery

/-! ### What it consumes -/

section Consuming
variable [BufRead ρ] {R : ρ → Bytes → Prop}

theorem read_bounded (h : Inflate.Bounded ι) {n : Nat} {d d' : DecompressionReader ι ρ} {bytes : Bytes}
    (hread : Read.read n d = (.ok bytes, d')) : bytes.length ≤ n := by
  rcases hfill : BufRead.fillBuf d.reader with ⟨e | buf, reader⟩
  · rw [read_unfilled hfill] at hread
    cases hread
  · rcases hcall : Inflate.inflate d.state buf n with ⟨⟨bytesConsumed, out, err | status⟩, s'⟩
    · rw [read_refused hfill hcall] at hread
      cases hread
    · rw [read_ok hfill hcall] at hread
      cases hread
      exact (h hcall).2

/-- What the calls used of the compressed bytes `z` is off the reader underneath. The last
of them was given the next of `z`, and succeeded if there is nothing more to read. -/
structure Consuming (R : ρ → Bytes → Prop) (z : Bytes) (size : Nat)
    (t : Take (DecompressionReader (Logged ι) ρ)) : Prop where
  within : consumed t.inner.state.calls ≤ z.length
  left : R t.inner.reader (z.drop (consumed t.inner.state.calls))
  fresh : t.inner.state.calls = [] → t.limit = size
  last : ∀ {before call}, t.inner.state.calls = before ++ [call] →
    call.input <+: z.drop (consumed before) ∧ call.result.bytesConsumed ≤ call.input.length ∧
      (t.limit = 0 → ∃ status, call.result.status = .ok status)

theorem read_consuming (h : Inflate.Bounded ι) (hR : Fills R) {z : Bytes} {size : Nat} (n : Nat) :
    Keeps (Consuming (ι := ι) R z size) (Read.read n) := by
  intro s ht
  obtain ⟨d, limit⟩ := s
  by_cases hlimit : limit = 0
  · subst hlimit
    exact ht
  · obtain ⟨hwithin, hleft, hfresh, hlast⟩ := ht
    obtain ⟨buf, r', hfill, hr', hbuf, -, hconsume⟩ := hR.fill hleft
    have hlen := hbuf.length_le
    rw [List.length_drop] at hlen
    rcases hcall : Inflate.inflate d.state.state buf (min n limit) with
      ⟨⟨bytesConsumed, out, err | status⟩, s'⟩
    · have hread := Take.read_error hlimit (read_refused hfill (Logged.inflate hcall))
      rw [hread]
      refine ⟨?_, ?_, fun he => absurd he (by simp), fun {before call} hcalls => ?_⟩ <;> dsimp only at *
      · rwa [consumed_append]
      · rwa [consumed_append]
      · obtain ⟨rfl, hlast'⟩ := List.append_inj' hcalls rfl
        cases hlast'
        exact ⟨hbuf, (h hcall).1, fun he => absurd he hlimit⟩
    · obtain ⟨hconsumed, hroom⟩ := h hcall
      have hmoved := hconsume bytesConsumed hconsumed
      rw [List.drop_drop] at hmoved
      have hread := Take.read_ok hlimit (read_ok hfill (Logged.inflate hcall))
      rw [hread]
      refine ⟨?_, ?_, fun he => absurd he (by simp), fun {before call} hcalls => ?_⟩ <;> dsimp only at *
      · rw [consumed_append]
        show _ + bytesConsumed ≤ _
        omega
      · rw [consumed_append]
        exact hmoved
      · obtain ⟨rfl, hlast'⟩ := List.append_inj' hcalls rfl
        cases hlast'
        exact ⟨hbuf, hconsumed, fun _ => ⟨status, rfl⟩⟩

omit [Inflate ι] [BufRead ρ] in
/-- Once all the output is read, the calls have used up `z` just when the last one was
given all that was left of it and used it. -/
theorem Consuming.exhausted_iff {z : Bytes} {size : Nat} {t : Take (DecompressionReader (Logged ι) ρ)}
    (h : Consuming R z size t) (hsize : size ≠ 0) (hlimit : t.limit = 0) :
    consumed t.inner.state.calls = z.length ↔ Exhausting z t.inner.state.calls := by
  have hsome : t.inner.state.calls ≠ [] := fun he => hsize ((h.fresh he).symm.trans hlimit)
  obtain ⟨before, call, hcalls⟩ : ∃ before call, t.inner.state.calls = before ++ [call] :=
    ⟨_, _, (List.dropLast_append_getLast hsome).symm⟩
  obtain ⟨hinput, hgiven, hok⟩ := h.last hcalls
  obtain ⟨status, hstatus⟩ := hok hlimit
  have hused : call.consumed = call.result.bytesConsumed := by rw [Call.consumed, hstatus]
  have hwithin := h.within
  have hlength := hinput.length_le
  rw [List.length_drop] at hlength
  rw [hcalls, consumed_append] at hwithin ⊢
  constructor
  · intro hall
    refine ⟨before, call, rfl, hinput.eq_of_length ?_, ?_⟩
    · rw [List.length_drop]
      omega
    · omega
  · intro h
    obtain ⟨before', call', hcalls', hrest, hall⟩ := h
    obtain ⟨rfl, hcall⟩ := List.append_inj' hcalls' rfl
    cases hcall
    rw [hused, hall, hrest, List.length_drop]
    omega

end Consuming

end DecompressionReader

/-! ### Polled -/

structure AsyncDecompressionReader (ι ρ : Type) where
  state : ι
  reader : ρ

namespace AsyncDecompressionReader
variable {ι ρ : Type} [Inflate ι]

def pollRead [AsyncBufRead ρ] (buf : ReadBuf) (d : AsyncDecompressionReader ι ρ) :
    PollIo Unit × ReadBuf × AsyncDecompressionReader ι ρ :=
  match AsyncBufRead.pollFillBuf d.reader with
  | (.pending, reader) => (.pending, buf, {d with reader := reader})
  | (.ready (.error e), reader) => (.ready (.error e), buf, {d with reader := reader})
  | (.ready (.ok internalBuf), reader) =>
    match Inflate.inflate d.state internalBuf buf.room with
    | (⟨_, _, .error err⟩, state) =>
      (.ready (.error ⟨.other, "Decompression error: " ++ err.debug⟩), buf, ⟨state, reader⟩)
    | (⟨bytesConsumed, out, .ok _⟩, state) =>
      (.ready (.ok ()), buf.put out, ⟨state, AsyncBufRead.consume bytesConsumed reader⟩)

instance [AsyncBufRead ρ] : AsyncRead (AsyncDecompressionReader ι ρ) := ⟨pollRead⟩

/-- A poll over a reader that is always ready does what a read does, and leaves the
buffer as it is when the decompressor wrote nothing. -/
theorem pollRead_ready [BufRead ρ] (buf : ReadBuf) (d : DecompressionReader ι ρ) :
    AsyncRead.pollRead buf (AsyncDecompressionReader.mk d.state (Ready.mk d.reader)) =
      (.ready ((Read.read buf.room d).1.map fun _ => ()),
        buf.put ((Read.read buf.room d).1.toOption.getD []),
        ⟨(Read.read buf.room d).2.state, ⟨(Read.read buf.room d).2.reader⟩⟩) := by
  have hput : buf.put [] = buf := by simp [ReadBuf.put]
  rcases hfill : BufRead.fillBuf d.reader with ⟨e | internalBuf, reader⟩
  · rw [DecompressionReader.read_unfilled hfill]
    simp only [AsyncRead.pollRead, pollRead, AsyncBufRead.pollFillBuf, hfill]
    simp [Except.map, Except.toOption, hput]
  · rcases hcall : Inflate.inflate d.state internalBuf buf.room with
      ⟨⟨bytesConsumed, out, err | status⟩, state⟩
    · rw [DecompressionReader.read_refused hfill hcall]
      simp only [AsyncRead.pollRead, pollRead, AsyncBufRead.pollFillBuf, hfill, hcall]
      simp [Except.map, Except.toOption, hput]
    · rw [DecompressionReader.read_ok hfill hcall]
      simp only [AsyncRead.pollRead, pollRead, AsyncBufRead.pollFillBuf, hfill, hcall]
      rfl

end AsyncDecompressionReader

/-! ### The reader of a provider -/

/-- A reader with the state for a decompressing one, which it passes on. -/
structure DecompressionStateWrappedReader (ι ρ : Type) where
  decompressionState : ι
  reader : ρ

namespace DecompressionStateWrappedReader
variable {ι ρ : Type}

instance [Read ρ] : Read (DecompressionStateWrappedReader ι ρ) where
  read n := fun r => ((Read.read n r.reader).1, {r with reader := (Read.read n r.reader).2})

instance [SetBlocking ρ] : SetBlocking (DecompressionStateWrappedReader ι ρ) where
  setBlocking blocking := fun r =>
    ((SetBlocking.setBlocking blocking r.reader).1,
      {r with reader := (SetBlocking.setBlocking blocking r.reader).2})

theorem passes [Read ρ] (s : ι) : Passes (DecompressionStateWrappedReader.mk s : ρ → _) :=
  fun _ _ => rfl

theorem read_keeps [Read ρ] {I : ρ → Prop} (h : ∀ n, Keeps I (Read.read n)) (n : Nat) :
    Keeps (fun r : DecompressionStateWrappedReader ι ρ => I r.reader) (Read.read n) :=
  fun r hr => h n r.reader hr

def withBound {ε α : Type} (bound : Nat)
    (m : Action ε (DecompressionStateWrappedReader ι (Take ρ)) α) :
    Action ε (DecompressionStateWrappedReader ι ρ) α :=
  borrowing (fun r => ⟨r.decompressionState, ⟨r.reader, bound⟩⟩)
    (fun r _ => ⟨r.decompressionState, r.reader.inner⟩) m

def remaining (r : DecompressionStateWrappedReader ι (Take ρ)) : Nat := r.reader.limit

def withDecompression [Inflate ι] {ε α : Type} (m : Action ε (DecompressionReader ι ρ) α) :
    Action ε (DecompressionStateWrappedReader ι ρ) α :=
  borrowing (fun r => ⟨Inflate.resetAs r.decompressionState, r.reader⟩)
    (fun d _ => ⟨d.state, d.reader⟩) m

theorem withBound_keeps {I : ρ → Prop} {ε α : Type} {bound : Nat}
    {m : Action ε (DecompressionStateWrappedReader ι (Take ρ)) α}
    (h : Keeps (fun r => I r.reader.inner) m) : Keeps (fun r => I r.reader) (withBound bound m) :=
  h.borrowing (fun _ => id) fun _ _ => id

end DecompressionStateWrappedReader

end Protocraft
