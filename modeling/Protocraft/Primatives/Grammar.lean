import Protocraft.Primatives.Composite
import Protocraft.Primatives.VarIntCodec
import Protocraft.Protocol.AsyncRead
import Protocraft.Stream.Spelling

/-! What the primitives accept.

The types that can be read have languages: a flag is any byte, a number any of its spellings of up
to five bytes, and what is composed of others is spelled by words of theirs in a row. A reader
accepts the language of its type and nothing else, whether it blocks or is polled; where it fails
its error tells a stream that ended too early from one that no value begins like. What is written
for a value is a word of it, and no other one is shorter. -/
namespace Protocraft
open Protocraft.Stream
open ToWriter (written)
open Program (Rewords)

/-- A type whose reader accepts its language. -/
class Spelled (α : Type) [FromReader α] [ToWriter α] where
  Spells : Spelling α
  accepts : ∀ {β : Type}, Accepts Spells (.streamError failedToFill) (.overSized "varint" 5 6)
    (FromReader.fromReader : Program ReadError β α)
  spells_written : ∀ v, Spells v (written v)
  shortest : ∀ {v word}, Spells v word → (written v).length ≤ word.length
  rewords : ∀ {β : Type} (early : IoError), Rewords (reworded early) (ReadError.reworded early)
    (FromReader.fromReader : Program ReadError β α) FromReader.fromReader

open Spelled (Spells accepts spells_written shortest rewords)

theorem readBytes_accepts {β : Type} (n : Nat) : Accepts (Spelling.exactly n) (.streamError failedToFill)
    (.overSized "varint" 5 6) (readBytes n : Program ReadError β Bytes) :=
  .readExact n rfl

/-! ### Numbers and flags -/

def Primative.Spells (p : Primative) : Spelling p.Value := fun v word =>
  word.length = p.bytes ∧ v = BigEndian.fromBeBytes p.bytes word

theorem Primative.accepts {β : Type} (p : Primative) : Accepts p.Spells (.streamError failedToFill)
    (.overSized "varint" 5 6) (p.fromReader : Program ReadError β p.Value) := by
  refine ((readBytes_accepts p.bytes).map (BigEndian.fromBeBytes p.bytes)).congr fun v word => ?_
  constructor
  · intro h
    obtain ⟨hlength, rfl⟩ := h
    exact ⟨word, rfl, rfl, hlength⟩
  · intro h
    obtain ⟨bytes, rfl, rfl, hlength⟩ := h
    exact ⟨hlength, rfl⟩

instance (p : Primative) : Spelled p.Value where
  Spells := p.Spells
  accepts := p.accepts
  spells_written v := by
    rw [Primative.written_eq]
    exact ⟨BigEndian.length_toBeBytes v, (BigEndian.fromBeBytes_toBeBytes v).symm⟩
  shortest {v word} h := by
    rw [Primative.written_eq, BigEndian.length_toBeBytes, h.1]
  rewords early := (readBytes_rewords p.bytes).bind fun _ => Program.rewords_pure _

theorem Primative.fromBeBytes_u8 (byte : Byte) :
    BigEndian.fromBeBytes Primative.u8.bytes [byte] = byte := by
  apply BitVec.eq_of_toNat_eq
  simp [BigEndian.fromBeBytes, BigEndian.decode, Primative.bytes]

/-- Any byte is a flag. -/
def Bool.Spells : Spelling Bool := fun v word => ∃ byte : Byte, word = [byte] ∧ v = (byte != 0)

instance : Spelled Bool where
  Spells := Bool.Spells
  accepts := by
    refine ((Primative.accepts .u8).map fun byte => byte != 0).congr fun v word => ?_
    constructor
    · intro h
      obtain ⟨byte, rfl, rfl⟩ := h
      exact ⟨byte, rfl, rfl, (Primative.fromBeBytes_u8 byte).symm⟩
    · intro h
      obtain ⟨byte, rfl, hlength, rfl⟩ := h
      obtain ⟨first, rfl⟩ := List.length_eq_one_iff.mp hlength
      exact ⟨first, rfl, congrArg (fun byte : Byte => byte != 0) (Primative.fromBeBytes_u8 first)⟩
  spells_written v := by
    rw [written_bool]
    exact ⟨_, rfl, by cases v <;> rfl⟩
  shortest {v word} h := by
    obtain ⟨byte, rfl, -⟩ := h
    rw [written_bool]
    exact Nat.le_refl 1
  rewords early := (rewords (α := Primative.u8.Value) early).bind fun _ => Program.rewords_pure _

/-- Bytes that go on, and one that does not. -/
def VarInt.Spells : Spelling VarInt := fun v word => ∃ used last, word = used ++ [last] ∧
  (∀ b ∈ used, Leb128.Continues b) ∧ ¬ Leb128.Continues last ∧ used.length < 5 ∧
  v = ⟨BitVec.ofNat 32 (Leb128.value word)⟩

theorem VarInt.accepts {β : Type} :
    Accepts VarInt.Spells (.streamError failedToFill) (.overSized "varint" 5 6)
      (VarInt.fromReader : Program ReadError β VarInt) where
  inhabited := ⟨_, [0], [], 0, rfl, by simp, by decide, by decide, rfl⟩
  reads h rem rest := by
    obtain ⟨used, last, rfl, hused, hlast, hwithin, rfl⟩ := h
    rw [List.append_assoc]
    exact fromReader_eval rem (Leb128.decode_groups hused hlast hwithin rest)
  unfinished {c} h rem := by
    obtain ⟨-, -, ⟨used, last, rfl, hused, -, hwithin, -⟩, hbegins, hne⟩ := h
    have hpart : c <+: used := (List.prefix_concat_iff.mp hbegins).resolve_left hne
    have hshort : ¬ 5 ≤ c.length := by
      have hle := hpart.length_le
      omega
    have hnone : Leb128.decode 5 c = none :=
      Leb128.decode_eq_none fun b hb => hused b (hpart.subset (List.mem_of_mem_take hb))
    rw [fromReader_eval_none rem hnone, if_neg hshort]
  hopeless {c} h rem := by
    have houtcome := fromReader_outcome rem c
    rcases hrun : (fromReader : Program ReadError β VarInt).eval rem c with ⟨reply, rest⟩
    rw [hrun] at houtcome
    cases houtcome with
    | @read used last _ hused hlast hwithin =>
      refine absurd ?_ (h _ (used ++ [last]) ⟨used, last, rfl, hused, hlast, hwithin, rfl⟩).1
      exact ⟨rest, List.append_assoc used [last] rest⟩
    | tooLong => rfl
    | ended hused hshort =>
      have hword : VarInt.Spells _ (c ++ [0]) := ⟨c, 0, rfl, hused, by decide, hshort, rfl⟩
      exact absurd (List.prefix_append c [0]) (h _ _ hword).2

instance : Spelled VarInt where
  Spells := VarInt.Spells
  accepts := VarInt.accepts
  spells_written v := by
    obtain ⟨used, last, hencode, hused, hlast⟩ := Leb128.encode_groups v.value.toNat
    have hwithin : used.length < 5 := by
      have hle := v.encode_length_le
      rw [hencode, List.length_append, List.length_singleton] at hle
      omega
    have hvalue : Leb128.value (used ++ [last]) = v.value.toNat := by
      have hdecode := Leb128.decode_groups hused hlast hwithin []
      have hread := Leb128.decode_encode 5 v.value.toNat [] v.encode_length_le
      rw [List.append_nil, hencode] at hread
      exact (Prod.mk.inj (Option.some.inj (hdecode.symm.trans hread))).1
    rw [VarInt.written_eq, hencode]
    refine ⟨used, last, rfl, hused, hlast, hwithin, ?_⟩
    rw [hvalue, BitVec.ofNat_toNat, BitVec.setWidth_eq]
  shortest {v word} h := by
    have hread := VarInt.accepts.reads h (fun _ => ()) []
    rw [List.append_nil] at hread
    rw [← Sized.size_eq v]
    exact VarInt.shortest hread
  rewords early := VarInt.fromReader_rewords

/-- As many bytes as there are. -/
def FixedBytes.Spells {n : Nat} : Spelling (FixedBytes n) := fun v word => v.bytes = word

instance {n : Nat} : Spelled (FixedBytes n) where
  Spells := FixedBytes.Spells
  accepts := by
    refine ((readBytes_accepts n).map (FixedBytes.ofBuffer n)).congr fun v word => ?_
    constructor
    · intro h
      obtain rfl : v.bytes = word := h
      exact ⟨v.bytes, (FixedBytes.ofBuffer_bytes v).symm, rfl, v.length_eq⟩
    · intro h
      obtain ⟨bytes, rfl, rfl, hlength⟩ := h
      exact congrArg FixedBytes.bytes (FixedBytes.ofBuffer_bytes ⟨bytes, hlength⟩)
  spells_written v := (FixedBytes.written_eq v).symm
  shortest {v word} h := by
    obtain rfl : v.bytes = word := h
    rw [FixedBytes.written_eq]
  rewords early := (readBytes_rewords n).bind fun _ => Program.rewords_pure _

/-! ### What is composed of others -/

section Composite
variable {α : Type} [FromReader α] [ToWriter α] [Sliced α] [Spelled α]

/-- A zero, or another byte and a word. -/
def Option.Spells : Spelling (Option α)
  | none, word => word = [0]
  | some value, word => ∃ byte rest, word = byte :: rest ∧ byte ≠ 0 ∧ Spelled.Spells value rest

instance : Spelled (Option α) where
  Spells := Option.Spells
  accepts {β} := by
    have hvalue : ∀ present : Bool, Accepts
        (if present then Spelling.image some (Spells : Spelling α) else Spelling.one none)
        (.streamError failedToFill) (.overSized "varint" 5 6)
        (if present then do
            let value ← FromReader.fromReader
            return some value
          else return none : Program ReadError β (Option α)) := by
      intro present
      cases present with
      | true => exact accepts.map some
      | false => exact .pure none
    refine ((accepts (α := Bool)).bind hvalue).congr fun v word => ?_
    constructor
    · intro h
      cases v with
      | none =>
        obtain rfl : word = [0] := h
        exact ⟨false, [0], [], ⟨0, rfl, rfl⟩, ⟨rfl, rfl⟩, rfl⟩
      | some value =>
        obtain ⟨byte, rest, rfl, hbyte, hrest⟩ := h
        exact ⟨true, [byte], rest, ⟨byte, rfl, (bne_iff_ne.mpr hbyte).symm⟩, ⟨value, rfl, hrest⟩, rfl⟩
    · intro h
      obtain ⟨present, _, second, ⟨byte, rfl, rfl⟩, hsecond, rfl⟩ := h
      by_cases hbyte : byte = 0
      · subst hbyte
        obtain ⟨rfl, rfl⟩ : v = none ∧ second = [] := hsecond
        rfl
      · rw [bne_iff_ne.mpr hbyte] at hsecond
        obtain ⟨value, rfl, hrest⟩ := hsecond
        exact ⟨byte, second, rfl, hbyte, hrest⟩
  spells_written v := by
    cases v with
    | none =>
      rw [written_none, written_bool]
      rfl
    | some value =>
      rw [written_some, written_bool]
      exact ⟨1, written value, rfl, by decide, spells_written value⟩
  shortest {v word} h := by
    cases v with
    | none =>
      obtain rfl : word = [0] := h
      rw [written_none, written_bool]
      exact Nat.le_refl 1
    | some value =>
      obtain ⟨byte, rest, rfl, -, hrest⟩ := h
      rw [written_some, written_bool, List.length_append, List.length_cons]
      have hshortest := shortest hrest
      rw [List.length_cons, List.length_nil]
      omega
  rewords early := by
    refine (rewords (α := Bool) early).bind fun present => ?_
    cases present with
    | true => exact (rewords (α := α) early).bind fun _ => Program.rewords_pure _
    | false => exact Program.rewords_pure _

/-- A word for each item. -/
def array.Spells {n : Nat} : Spelling (List.Vector α n) := fun v word =>
  Spelling.row (fun _ => (Spelled.Spells : Spelling α)) v.get word

omit [Sliced α] in
theorem readArray_accepts {β : Type} (n : Nat) : Accepts (array.Spells : Spelling (List.Vector α n))
    (.streamError failedToFill) (.overSized "varint" 5 6)
    (readArray n : Program ReadError β (List.Vector α n)) := by
  induction n with
  | zero =>
    refine (Accepts.pure List.Vector.nil).congr fun v word => ?_
    rw [array.Spells, Spelling.row_zero]
    exact ⟨fun h => ⟨v.eq_nil, h⟩, fun h => h.2⟩
  | succ n ih =>
    refine ((accepts (α := α)).bind fun t => ih.map (t ::ᵥ ·)).congr fun v word => ?_
    rw [array.Spells, Spelling.row_succ]
    constructor
    · intro h
      obtain ⟨first, rest, hfirst, hrest, rfl⟩ := h
      refine ⟨v.head, first, rest, ?_, ⟨v.tail, (List.Vector.cons_head_tail v).symm, ?_⟩, rfl⟩
      · rwa [← List.Vector.get_zero]
      · have htail : v.tail.get = fun i => v.get i.succ := funext fun i => List.Vector.get_tail_succ v i
        rwa [array.Spells, htail]
    · intro h
      obtain ⟨t, first, second, hfirst, ⟨rest, rfl, hrest⟩, rfl⟩ := h
      exact ⟨first, second, hfirst, hrest, rfl⟩

omit [Sliced α] in
theorem readArray_rewords {β : Type} (early : IoError) (n : Nat) : Rewords (reworded early)
    (ReadError.reworded early) (readArray n : Program ReadError β (List.Vector α n)) (readArray n) := by
  induction n with
  | zero => exact Program.rewords_pure _
  | succ n ih => exact (rewords (α := α) early).bind fun _ => ih.bind fun _ => Program.rewords_pure _

instance {n : Nat} : Spelled (List.Vector α n) where
  Spells := array.Spells
  accepts := readArray_accepts n
  spells_written v := by
    induction v using List.Vector.inductionOn with
    | nil =>
      rw [array.Spells, Spelling.row_zero]
      rfl
    | @cons n t rest ih =>
      rw [array.Spells, Spelling.row_succ, written_array, List.Vector.toList_cons, written_cons]
      exact ⟨written t, written rest.toList, spells_written t, ih, rfl⟩
  shortest {v word} h := by
    induction v using List.Vector.inductionOn generalizing word with
    | nil => exact Nat.zero_le _
    | @cons n t rest ih =>
      rw [array.Spells, Spelling.row_succ] at h
      obtain ⟨first, second, hfirst, hsecond, rfl⟩ := h
      have hitem := shortest hfirst
      have hitems := ih hsecond
      rw [List.Vector.get_zero, List.Vector.head_cons] at hitem
      rw [written_array] at hitems
      rw [written_array, List.Vector.toList_cons, written_cons, List.length_append, List.length_append]
      omega
  rewords early := readArray_rewords early n

end Composite

namespace Tuple
variable {n : Nat} {α : Fin n → Type}

/-- A word for each component. -/
protected def Spells [(i : Fin n) → FromReader (α i)] [(i : Fin n) → ToWriter (α i)]
    [(i : Fin n) → Spelled (α i)] : Spelling (Tuple α) :=
  Spelling.row fun i => (Spelled.Spells : Spelling (α i))

theorem spells_zero {α : Fin 0 → Type} [(i : Fin 0) → FromReader (α i)] [(i : Fin 0) → ToWriter (α i)]
    [(i : Fin 0) → Spelled (α i)] (v : Tuple α) (word : Bytes) : Tuple.Spells v word ↔ word = [] :=
  Spelling.row_zero _ v word

theorem spells_succ {α : Fin (n + 1) → Type} [(i : Fin (n + 1)) → FromReader (α i)]
    [(i : Fin (n + 1)) → ToWriter (α i)] [(i : Fin (n + 1)) → Spelled (α i)] (v : Tuple α)
    (word : Bytes) :
    Tuple.Spells v word ↔
      ∃ first rest, Spells (v 0) first ∧ Tuple.Spells v.rest rest ∧ word = first ++ rest :=
  Spelling.row_succ _ v word

theorem fromReader_accepts {β : Type} [(i : Fin n) → FromReader (α i)] [(i : Fin n) → ToWriter (α i)]
    [(i : Fin n) → Spelled (α i)] :
    Accepts Tuple.Spells (.streamError failedToFill) (.overSized "varint" 5 6)
      (fromReader α : Program ReadError β (Tuple α)) := by
  induction n with
  | zero =>
    refine (Accepts.pure (fun i => i.elim0 : Tuple α)).congr fun v word => ?_
    exact (spells_zero v word).trans ⟨fun h => ⟨funext fun i => i.elim0, h⟩, fun h => h.2⟩
  | succ n ih =>
    refine ((accepts (α := α 0)).bind fun t => ih.map (cons t)).congr fun v word => ?_
    rw [spells_succ]
    constructor
    · intro h
      obtain ⟨first, rest, hfirst, hrest, rfl⟩ := h
      exact ⟨v 0, first, rest, hfirst, ⟨v.rest, (cons_rest v).symm, hrest⟩, rfl⟩
    · intro h
      obtain ⟨t, first, second, hfirst, ⟨rest, rfl, hrest⟩, rfl⟩ := h
      exact ⟨first, second, hfirst, hrest, rfl⟩

theorem fromReader_rewords {β : Type} [(i : Fin n) → FromReader (α i)] [(i : Fin n) → ToWriter (α i)]
    [(i : Fin n) → Spelled (α i)] (early : IoError) : Rewords (reworded early) (ReadError.reworded early)
      (fromReader α : Program ReadError β (Tuple α)) (fromReader α) := by
  induction n with
  | zero => exact Program.rewords_pure _
  | succ n ih => exact (rewords (α := α 0) early).bind fun _ => ih.bind fun _ => Program.rewords_pure _

instance [(i : Fin n) → FromReader (α i)] [(i : Fin n) → ToWriter (α i)] [∀ i, Sliced (α i)]
    [(i : Fin n) → Spelled (α i)] : Spelled (Tuple α) where
  Spells := Tuple.Spells
  accepts := fromReader_accepts
  spells_written v := by
    induction n with
    | zero =>
      rw [spells_zero]
      rfl
    | succ n ih =>
      rw [spells_succ, written_succ]
      exact ⟨written (v 0), written v.rest, spells_written (v 0), ih v.rest, rfl⟩
  shortest {v word} h := by
    induction n generalizing word with
    | zero => exact Nat.zero_le _
    | succ n ih =>
      rw [spells_succ] at h
      obtain ⟨first, rest, hfirst, hrest, rfl⟩ := h
      have hitem := shortest hfirst
      have hitems := ih hrest
      rw [written_succ, List.length_append, List.length_append]
      exact Nat.add_le_add hitem hitems
  rewords early := fromReader_rewords early

end Tuple

/-! ### However nested -/

namespace Ty

@[reducible] def spelled : (t : Ty) → (h : t.Readable) → @Spelled t.Value (t.fromReader h) t.toWriter
  | primative p, _ => inferInstanceAs (Spelled p.Value)
  | bool, _ => inferInstanceAs (Spelled Bool)
  | varInt, _ => inferInstanceAs (Spelled VarInt)
  | bytes n, _ => inferInstanceAs (Spelled (FixedBytes n))
  | option t, h =>
    letI := t.fromReader h
    letI := spelled t h
    inferInstanceAs (Spelled (Option t.Value))
  | array t n, h =>
    letI := t.fromReader h
    letI := spelled t h
    inferInstanceAs (Spelled (List.Vector t.Value n))
  | tuple _ ts, h =>
    letI := fun i => (ts i).fromReader (h i)
    letI := fun i => spelled (ts i) (h i)
    inferInstanceAs (Spelled (Tuple fun i => (ts i).Value))

/-- The words of a type. -/
protected def Spells (t : Ty) (h : t.Readable) : Spelling t.Value := (t.spelled h).Spells

theorem read_accepts {β : Type} (t : Ty) (h : t.Readable) :
    Accepts (t.Spells h) (.streamError failedToFill) (.overSized "varint" 5 6)
      (t.read h : Program ReadError β t.Value) :=
  (t.spelled h).accepts

/-- **A type is read as its language says**, whatever pieces the stream comes in, and an error tells
how the stream misses it. Written again, a value takes no more bytes. -/
theorem read_grammar {ρ : Type} [Read ρ] {R : ρ → Bytes → Prop} (hR : Delivers R Never) (t : Ty)
    (h : t.Readable) {r : ρ} {c : Bytes} (hr : R r c) :
    (∀ v, ((t.read h).onReader r).1 = .ok v ↔ ∃ word rest, c = word ++ rest ∧ t.Spells h v word) ∧
    (∀ v word rest, c = word ++ rest → t.Spells h v word →
      R ((t.read h).onReader r).2 rest ∧ (written v).length ≤ word.length) ∧
    (((t.read h).onReader r).1 = .error (.streamError failedToFill) ↔ (t.Spells h).Unfinished c) ∧
    (((t.read h).onReader r).1 = .error (.overSized "varint" 5 6) ↔ (t.Spells h).Hopeless c) := by
  have haccepts : Accepts (t.Spells h) _ _ (t.read h : Program ReadError Unit t.Value) :=
    t.read_accepts h
  obtain ⟨r', hrun, hr'⟩ := Program.onReader_eq hR hr rfl
  rw [hrun]
  refine ⟨fun v => haccepts.ok_iff _ c, fun v word rest hc hword => ⟨?_, (t.spelled h).shortest hword⟩,
    haccepts.unfinished_iff _ c (by decide), haccepts.hopeless_iff _ c (by decide)⟩
  subst hc
  rwa [haccepts.reads hword] at hr'

/-- A flag that is neither of the two written ones, and a number spelled with a byte more than it
takes. -/
theorem read_grammar_spelled :
    let t : Ty := .option .varInt
    let v : t.Value := some (⟨5⟩ : VarInt)
    let stream : Slice := ⟨[7, 0x85, 0x00, 9]⟩
    ((t.read trivial).onReader stream).1 = .ok v ∧ ((t.read trivial).onReader stream).2.Holds [9] ∧
      (written v).length ≤ 3 := by
  intro t v stream
  have hword : t.Spells trivial v [7, 0x85, 0x00] :=
    ⟨7, [0x85, 0x00], rfl, by decide, [0x85], 0x00, rfl, by decide, by decide, by decide, by decide⟩
  obtain ⟨hok, hbehind, -, -⟩ := read_grammar Slice.delivers t trivial (r := stream) rfl
  obtain ⟨hrest, hshortest⟩ := hbehind v [7, 0x85, 0x00] [9] rfl hword
  exact ⟨(hok v).mpr ⟨_, [9], rfl, hword⟩, hrest, hshortest⟩

/-- **The polled reader of a type reads the same language**, however often it has to wait, and ends
where the blocking one does. -/
theorem async_read_grammar {α ρ : Type} [AsyncRead α] [Read ρ] {A : α → ρ → Prop} {early : IoError}
    (hread : Follows early A) {R : ρ → Bytes → Prop} (hR : Delivers R Never) (t : Ty)
    (h : t.Readable) {a : α} {r : ρ} {c : Bytes} (ha : A a r) (hr : R r c) :
    ∃ turns reply a' r', A a' r' ∧
      (∀ more, (t.read h).asyncRun early (turns + more) (fun _ => ()) a = (reply, a')) ∧
      (∀ v, reply = .ok v ↔ ∃ word rest, c = word ++ rest ∧ t.Spells h v word) ∧
      (∀ v word rest, c = word ++ rest → t.Spells h v word → R r' rest) ∧
      (reply = .error (.error (.streamError early)) ↔ (t.Spells h).Unfinished c) ∧
      (reply = .error (.error (.overSized "varint" 5 6)) ↔ (t.Spells h).Hopeless c) := by
  have haccepts : Accepts (t.Spells h) _ _ (t.read h : Program ReadError Unit t.Value) :=
    t.read_accepts h
  have hmatches : Matches (ReadError.reworded early) A
      (fun turns => (t.read h : Program ReadError Unit _).asyncRun early turns fun _ => ())
        (t.read h).onReader :=
    Program.asyncRun_matches hread (fun _ => rfl) ((t.spelled h).rewords early)
  obtain ⟨r', hrun, hr'⟩ := Program.onReader_eq hR hr rfl
  obtain ⟨turns, a', ha', hasync⟩ := hmatches ha
  rw [hrun] at ha' hasync
  have houtcome := haccepts.outcome (fun _ => ()) c
  refine ⟨turns, _, a', r', ha', hasync, fun v => ?_, fun v word rest hc hword => ?_, ?_, ?_⟩
  · rw [← haccepts.ok_iff (fun _ => ()) c]
    rcases ((t.read h).eval (fun _ => ()) c).1 with e | v' <;> simp [Except.mapError]
  · subst hc
    rwa [haccepts.reads hword] at hr'
  · rw [← haccepts.unfinished_iff (fun _ => ()) c (by decide)]
    generalize (t.read h).eval (fun _ => ()) c = run at houtcome ⊢
    cases houtcome <;> simp [Except.mapError, ReadError.reworded]
  · rw [← haccepts.hopeless_iff (fun _ => ()) c (by decide)]
    generalize (t.read h).eval (fun _ => ()) c = run at houtcome ⊢
    cases houtcome <;> simp [Except.mapError, ReadError.reworded]

/-- The same spelling, with a wait inside. -/
theorem async_read_grammar_spelled :
    let t : Ty := .option .varInt
    let v : t.Value := some (⟨5⟩ : VarInt)
    let early : IoError := ⟨.unexpectedEof, "early eof"⟩
    let delayed : Delayed := ⟨[none, some [7, 0x85], none, some [0x00, 9]], by decide⟩
    ∃ turns a', ∀ more, (t.read trivial).asyncRun early (turns + more) (fun _ => ()) delayed =
      (.ok v, a') := by
  intro t v early delayed
  have hword : t.Spells trivial v [7, 0x85, 0x00] :=
    ⟨7, [0x85, 0x00], rfl, by decide, [0x85], 0x00, rfl, by decide, by decide, by decide, by decide⟩
  have hbrings : Delayed.Brings delayed ⟨[[7, 0x85], [0x00, 9]], by decide⟩ := rfl
  have hholds : Segments.Holds ⟨[[7, 0x85], [0x00, 9]], by decide⟩ [7, 0x85, 0x00, 9] := rfl
  obtain ⟨turns, reply, a', r', -, hrun, hok, -⟩ :=
    async_read_grammar (Delayed.follows early) Segments.delivers t trivial hbrings hholds
  obtain rfl := (hok v).mpr ⟨_, [9], rfl, hword⟩
  exact ⟨turns, a', hrun⟩

end Ty

end Protocraft
