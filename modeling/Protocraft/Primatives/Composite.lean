import Protocraft.Primatives.Codec
import Protocraft.Protocol.Framing

/-! Types made of others.

An option is a `bool` and then the value, if there is one; a slice is its items in order, with
nothing to say how many; an array and a tuple are their components in order. Each passes on what
its parts have. `Ty` are the types that they make of the primitives, however nested: what is
written of a value is as long as declared (`Ty.size_exact`), and of the types that can be read,
it reads back (`Ty.reads_back`). -/
namespace Protocraft
open Protocraft.Stream
open ToWriter (WrittenAs slices written)

/-! ### `Option` -/

section Option
variable {α : Type}

instance [FromReader α] : FromReader (Option α) where
  fromReader := do
    let present ← (FromReader.fromReader : Program ReadError _ Bool)
    if present then
      let value ← FromReader.fromReader
      return some value
    else
      return none

instance [ToWriter α] : ToWriter (Option α) where
  toWriter turns
    | some value => do
      ToWriter.toWriter turns true
      ToWriter.toWriter turns value
    | none => ToWriter.toWriter turns false

instance [Serializable α] : Serializable (Option α) where
  size
    | some value => 1 + Serializable.size value
    | none => 1

/-- The slices of an option. -/
def Option.each [ToWriter α] : Option α → List Bytes
  | some value => slices true ++ slices value
  | none => slices false

theorem writtenAs_option [ToWriter α] [Sliced α] (v : Option α) : WrittenAs v (Option.each v) where
  each turns := by
    cases v with
    | none => exact (Sliced.writes false).each turns
    | some value =>
      rw [Option.each, writeSlices_append, ← (Sliced.writes true).each, ← (Sliced.writes value).each]
      rfl

theorem written_none [ToWriter α] [Sliced α] : written (none : Option α) = written false :=
  (writtenAs_option none).written_eq

theorem written_some [ToWriter α] [Sliced α] (value : α) :
    written (some value) = written true ++ written value := by
  rw [(writtenAs_option (some value)).written_eq, Option.each, List.flatten_append]
  rfl

instance [ToWriter α] [Sliced α] : Sliced (Option α) := .of writtenAs_option

instance [ToWriter α] [Serializable α] [Sized α] : Sized (Option α) where
  size_eq v := by
    cases v with
    | none =>
      rw [written_none]
      exact Sized.size_eq false
    | some value =>
      rw [written_some, List.length_append, ← Sized.size_eq true, ← Sized.size_eq value]
      rfl

instance [FromReader α] [ToWriter α] [Delimited α] : Delimited (Option α) where
  delimits v := by
    cases v with
    | none =>
      rw [written_none, ← List.append_nil (written false)]
      exact (Delimited.delimits false).bind (.pure none)
    | some value =>
      rw [written_some]
      exact (Delimited.delimits true).bind ((Delimited.delimits value).map some)

end Option

/-! ### Slices and arrays -/

section Slice
variable {α : Type}

/-- The items of a slice in order. -/
def writeItems [ToWriter α] {ω : Type} [Writer ω] (turns : Nat) :
    List α → Action (Stop WriteError) ω Unit
  | [] => pure ()
  | item :: items => do
    ToWriter.toWriter turns item
    writeItems turns items

instance [ToWriter α] : ToWriter (List α) := ⟨writeItems⟩

instance [Serializable α] : Serializable (List α) :=
  ⟨fun items => items.foldl (fun acc val => acc + Serializable.size val) 0⟩

theorem writtenAs_slice [ToWriter α] [Sliced α] (items : List α) :
    WrittenAs items (items.flatMap slices) where
  each turns := by
    induction items with
    | nil => rfl
    | cons item items ih =>
      rw [List.flatMap_cons, writeSlices_append, ← (Sliced.writes item).each, ← ih]
      rfl

instance [ToWriter α] [Sliced α] : Sliced (List α) := .of writtenAs_slice

theorem written_cons [ToWriter α] [Sliced α] (item : α) (items : List α) :
    written (item :: items) = written item ++ written items := by
  rw [(writtenAs_slice (item :: items)).written_eq, (writtenAs_slice items).written_eq,
    List.flatMap_cons, List.flatten_append]
  rfl

instance [ToWriter α] [Serializable α] [Sized α] : Sized (List α) where
  size_eq items := by
    have hfold : ∀ acc, items.foldl (fun acc val => acc + Serializable.size val) acc =
        acc + (written items).length := by
      induction items with
      | nil => exact fun acc => rfl
      | cons item items ih =>
        intro acc
        rw [List.foldl_cons, ih, written_cons, List.length_append, Sized.size_eq item, Nat.add_assoc]
    rw [← Nat.zero_add (written items).length]
    exact hfold 0

variable {n : Nat}

/-- The components of an array in order. -/
def readArray [FromReader α] {β : Type} : (n : Nat) → Program ReadError β (List.Vector α n)
  | 0 => return .nil
  | n + 1 => do
    let t ← FromReader.fromReader
    let rest ← readArray n
    return t ::ᵥ rest

instance [FromReader α] : FromReader (List.Vector α n) := ⟨readArray n⟩

instance [ToWriter α] : ToWriter (List.Vector α n) := ⟨fun turns v => ToWriter.toWriter turns v.toList⟩

instance [Serializable α] : Serializable (List.Vector α n) := ⟨fun v => Serializable.size v.toList⟩

instance [ToWriter α] [Sliced α] : Sliced (List.Vector α n) where
  writes v := ⟨(Sliced.writes v.toList).each⟩

theorem written_array [ToWriter α] (v : List.Vector α n) : written v = written v.toList := rfl

instance [ToWriter α] [Serializable α] [Sized α] : Sized (List.Vector α n) where
  size_eq v := Sized.size_eq v.toList

instance [FromReader α] [ToWriter α] [Delimited α] : Delimited (List.Vector α n) where
  delimits v := by
    induction v using List.Vector.inductionOn with
    | nil => exact .pure List.Vector.nil
    | @cons n t rest ih =>
      rw [written_array, List.Vector.toList_cons, written_cons]
      exact (Delimited.delimits t).bind (ih.map fun rest => t ::ᵥ rest)

end Slice

/-! ### Tuples -/

/-- Components of types of their own. -/
def Tuple {n : Nat} (α : Fin n → Type) : Type := (i : Fin n) → α i

namespace Tuple

/-- The components behind the first. -/
def rest {n : Nat} {α : Fin (n + 1) → Type} (v : Tuple α) : Tuple fun i => α i.succ := Fin.tail v

def cons {n : Nat} {α : Fin (n + 1) → Type} (t : α 0) (rest : Tuple fun i => α i.succ) : Tuple α :=
  Fin.cons t rest

theorem cons_rest {n : Nat} {α : Fin (n + 1) → Type} (v : Tuple α) : cons (v 0) v.rest = v :=
  Fin.cons_self_tail v

def fromReader {β : Type} : {n : Nat} → (α : Fin n → Type) → [(i : Fin n) → FromReader (α i)] →
    Program ReadError β (Tuple α)
  | 0, _, _ => return fun i => i.elim0
  | _ + 1, α, _ => do
    let t ← (FromReader.fromReader : Program ReadError _ (α 0))
    let rest ← fromReader fun i => α i.succ
    return cons t rest

def toWriter {ω : Type} [Writer ω] (turns : Nat) : {n : Nat} → {α : Fin n → Type} →
    [(i : Fin n) → ToWriter (α i)] → Tuple α → Action (Stop WriteError) ω Unit
  | 0, _, _, _ => pure ()
  | _ + 1, _, _, v => do
    ToWriter.toWriter turns (v 0)
    toWriter turns v.rest

def size : {n : Nat} → {α : Fin n → Type} → [(i : Fin n) → Serializable (α i)] → Tuple α → Nat
  | 0, _, _, _ => 0
  | _ + 1, _, _, v => Serializable.size (v 0) + size v.rest

variable {n : Nat} {α : Fin n → Type}

instance [(i : Fin n) → FromReader (α i)] : FromReader (Tuple α) := ⟨fromReader α⟩

instance [(i : Fin n) → ToWriter (α i)] : ToWriter (Tuple α) := ⟨fun turns v => toWriter turns v⟩

instance [(i : Fin n) → Serializable (α i)] : Serializable (Tuple α) := ⟨size⟩

/-- The slices of a tuple. -/
def each : {n : Nat} → {α : Fin n → Type} → [(i : Fin n) → ToWriter (α i)] → Tuple α → List Bytes
  | 0, _, _, _ => []
  | _ + 1, _, _, v => slices (v 0) ++ each v.rest

theorem writtenAs [(i : Fin n) → ToWriter (α i)] [∀ i, Sliced (α i)] (v : Tuple α) :
    WrittenAs v (each v) where
  each turns := by
    induction n with
    | zero => rfl
    | succ n ih =>
      rw [each, writeSlices_append, ← (Sliced.writes (v 0)).each, ← ih v.rest]
      rfl

instance [(i : Fin n) → ToWriter (α i)] [∀ i, Sliced (α i)] : Sliced (Tuple α) := .of writtenAs

theorem written_succ {α : Fin (n + 1) → Type} [(i : Fin (n + 1)) → ToWriter (α i)] [∀ i, Sliced (α i)]
    (v : Tuple α) : written v = written (v 0) ++ written v.rest := by
  rw [(writtenAs v).written_eq, (writtenAs v.rest).written_eq, each, List.flatten_append]
  rfl

instance [(i : Fin n) → ToWriter (α i)] [(i : Fin n) → Serializable (α i)] [∀ i, Sized (α i)] :
    Sized (Tuple α) where
  size_eq v := by
    induction n with
    | zero => rfl
    | succ n ih =>
      rw [written_succ, List.length_append, ← Sized.size_eq (v 0), ← ih v.rest]
      rfl

instance [(i : Fin n) → FromReader (α i)] [(i : Fin n) → ToWriter (α i)] [∀ i, Delimited (α i)] :
    Delimited (Tuple α) where
  delimits v := by
    induction n with
    | zero =>
      have hnone : (fun i => i.elim0 : Tuple α) = v := funext fun i => i.elim0
      rw [← hnone]
      exact .pure _
    | succ n ih =>
      have hrest := (ih v.rest).map (cons (v 0))
      rw [cons_rest] at hrest
      rw [written_succ]
      exact (Delimited.delimits (v 0)).bind hrest

end Tuple

/-! ### However nested -/

/-- The types made of the primitives. A tuple has one component and up to eleven more. -/
inductive Ty where
  | primative (p : Primative)
  | bool
  | varInt
  | str
  | bytes (n : Nat)
  | bytesRef
  | option (t : Ty)
  | slice (t : Ty)
  | array (t : Ty) (n : Nat)
  | tuple (more : Fin 12) (ts : Fin (more + 1) → Ty)

namespace Ty

def Value : Ty → Type
  | primative p => p.Value
  | bool => Bool
  | varInt => VarInt
  | str => String
  | bytes n => FixedBytes n
  | bytesRef => BytesRef
  | option t => Option t.Value
  | slice t => List t.Value
  | array t n => List.Vector t.Value n
  | tuple _ ts => Tuple fun i => (ts i).Value

instance toWriter : (t : Ty) → ToWriter t.Value
  | primative p => inferInstanceAs (ToWriter p.Value)
  | bool => inferInstanceAs (ToWriter Bool)
  | varInt => inferInstanceAs (ToWriter VarInt)
  | str => inferInstanceAs (ToWriter String)
  | bytes n => inferInstanceAs (ToWriter (FixedBytes n))
  | bytesRef => inferInstanceAs (ToWriter BytesRef)
  | option t => have := toWriter t; inferInstanceAs (ToWriter (Option t.Value))
  | slice t => have := toWriter t; inferInstanceAs (ToWriter (List t.Value))
  | array t n => have := toWriter t; inferInstanceAs (ToWriter (List.Vector t.Value n))
  | tuple _ ts =>
    have := fun i => toWriter (ts i)
    inferInstanceAs (ToWriter (Tuple fun i => (ts i).Value))

instance serializable : (t : Ty) → Serializable t.Value
  | primative p => inferInstanceAs (Serializable p.Value)
  | bool => inferInstanceAs (Serializable Bool)
  | varInt => inferInstanceAs (Serializable VarInt)
  | str => inferInstanceAs (Serializable String)
  | bytes n => inferInstanceAs (Serializable (FixedBytes n))
  | bytesRef => inferInstanceAs (Serializable BytesRef)
  | option t => have := serializable t; inferInstanceAs (Serializable (Option t.Value))
  | slice t => have := serializable t; inferInstanceAs (Serializable (List t.Value))
  | array t n => have := serializable t; inferInstanceAs (Serializable (List.Vector t.Value n))
  | tuple _ ts =>
    have := fun i => serializable (ts i)
    inferInstanceAs (Serializable (Tuple fun i => (ts i).Value))

/-- A type of which every part can be read: no part borrows its bytes. -/
def Readable : Ty → Prop
  | str | bytesRef | slice _ => False
  | option t => t.Readable
  | array t _ => t.Readable
  | tuple _ ts => ∀ i, (ts i).Readable
  | _ => True

@[reducible] def fromReader : (t : Ty) → t.Readable → FromReader t.Value
  | primative p, _ => inferInstanceAs (FromReader p.Value)
  | bool, _ => inferInstanceAs (FromReader Bool)
  | varInt, _ => inferInstanceAs (FromReader VarInt)
  | bytes n, _ => inferInstanceAs (FromReader (FixedBytes n))
  | option t, h => have := fromReader t h; inferInstanceAs (FromReader (Option t.Value))
  | array t n, h => have := fromReader t h; inferInstanceAs (FromReader (List.Vector t.Value n))
  | tuple _ ts, h =>
    have := fun i => fromReader (ts i) (h i)
    inferInstanceAs (FromReader (Tuple fun i => (ts i).Value))

instance sized : (t : Ty) → Sized t.Value
  | primative p => inferInstanceAs (Sized p.Value)
  | bool => inferInstanceAs (Sized Bool)
  | varInt => inferInstanceAs (Sized VarInt)
  | str => inferInstanceAs (Sized String)
  | bytes n => inferInstanceAs (Sized (FixedBytes n))
  | bytesRef => inferInstanceAs (Sized BytesRef)
  | option t => have := sized t; inferInstanceAs (Sized (Option t.Value))
  | slice t => have := sized t; inferInstanceAs (Sized (List t.Value))
  | array t n => have := sized t; inferInstanceAs (Sized (List.Vector t.Value n))
  | tuple _ ts => have := fun i => sized (ts i); inferInstanceAs (Sized (Tuple fun i => (ts i).Value))

theorem delimited : (t : Ty) → (h : t.Readable) → @Delimited t.Value (t.fromReader h) _
  | primative p, _ => inferInstanceAs (Delimited p.Value)
  | bool, _ => inferInstanceAs (Delimited Bool)
  | varInt, _ => inferInstanceAs (Delimited VarInt)
  | bytes n, _ => inferInstanceAs (Delimited (FixedBytes n))
  | option t, h =>
    letI := t.fromReader h
    have := delimited t h
    inferInstanceAs (Delimited (Option t.Value))
  | array t n, h =>
    letI := t.fromReader h
    have := delimited t h
    inferInstanceAs (Delimited (List.Vector t.Value n))
  | tuple _ ts, h =>
    letI := fun i => (ts i).fromReader (h i)
    have := fun i => delimited (ts i) (h i)
    inferInstanceAs (Delimited (Tuple fun i => (ts i).Value))

def read {β : Type} (t : Ty) (h : t.Readable) : Program ReadError β t.Value :=
  (t.fromReader h).fromReader

theorem read_delimits {β : Type} (t : Ty) (h : t.Readable) (v : t.Value) :
    Delimits Streaming (t.read h : Program ReadError β t.Value) (written v) v :=
  (delimited t h).delimits v

/-- **What is written reads back**, whatever follows it; and of less than all of it nothing is read. -/
theorem reads_back {ρ : Type} [Read ρ] {R : ρ → Bytes → Prop} (hR : Delivers R Never) (t : Ty)
    (h : t.Readable) (v : t.Value) :
    (∀ {ω : Type} [Writer ω] (turns : Nat),
      (ToWriter.toWriter turns v : Action (Stop WriteError) ω Unit) =
      mapError (Stop.map .streamError) (writeEach turns (slices v))) ∧
    (∀ {r rest}, R r ((slices v).flatten ++ rest) → ∃ r', (t.read h).onReader r = (.ok v, r') ∧
      R r' rest) ∧
    ∀ {r short}, short <+: (slices v).flatten → short ≠ (slices v).flatten → R r short →
      ∃ e, ((t.read h).onReader r).1 = .error (.streamError e) := by
  refine ⟨(Sliced.writes v).each, (t.read_delimits h v).onReader hR, fun {r short} hshort hne hr => ?_⟩
  obtain ⟨e, hfailed, he⟩ := (t.read_delimits h v).onReader_cut hR hshort hne hr
  cases e with
  | streamError e => exact ⟨e, hfailed⟩
  | _ => exact he.elim

/-- Two words that may be missing: in front of another byte, and cut short. -/
theorem reads_back_words :
    let t : Ty := .option (.array (.primative .u16) 2)
    let v : t.Value := some ⟨[0x1234#16, 0x5678#16], rfl⟩
    (∃ r', (t.read trivial).onReader (⟨[1, 0x12, 0x34, 0x56, 0x78, 9]⟩ : Slice) = (.ok v, r') ∧
      r'.Holds [9]) ∧
      ∃ e, ((t.read trivial).onReader (⟨[1, 0x12, 0x34]⟩ : Slice)).1 = .error (.streamError e) := by
  intro t v
  have hwritten : (slices v).flatten = [1, 0x12, 0x34, 0x56, 0x78] := by decide
  obtain ⟨-, hwhole, hcut⟩ := reads_back Slice.delivers t trivial v
  rw [hwritten] at hwhole hcut
  exact ⟨hwhole rfl, hcut (by decide) (by decide) rfl⟩

/-- **A value is as long as it says**, so its packet goes out in a frame of the right length. -/
theorem size_exact {κ ω : Type} [Deflate κ] [Write ω] {Sent : κ → Bytes → Bytes → Prop}
    {Complete : Bytes → Bytes → Prop} {received : ω → Bytes} (h : Deflating Sent Complete)
    (hlawful : Lawful received) (t : Ty) (v : t.Value) :
    (∀ {ω' : Type} [Writer ω'] {E : ω' → Bytes → Prop}, Emits E → ∀ {turns w w' bytes}, E w bytes →
      ToWriter.toWriter turns v w = (.ok (), w') → E w' (bytes ++ written v)) ∧
    (∀ {ω' : Type} [Write ω'], Reliable ω' → ∀ turns (w : ω'), ∃ w',
      ToWriter.toWriter turns v w = (.ok (), w')) ∧
    Serializable.size v = (written v).length ∧
    (∀ {ω' : Type} [Writer ω'] (turns : Nat),
      (ToWriter.packet v).toWriter turns =
        (ToWriter.toWriter turns v : Action (Stop WriteError) ω' Unit)) ∧
    ∀ {turns threshold id} {w w' : DefaultWriter κ ω},
      writePacketInternal turns threshold id (ToWriter.packet v) w = (.ok (), w') → ∃ frame,
        Framed Complete threshold (Leb128.encode id.toNat ++ written v) frame ∧
        received w'.sink = received w.sink ++ w.encoded (w.buffer ++ frame) := by
  have hsize : (ToWriter.packet v).size = (ToWriter.packet v).bytes.length := Sized.size_eq v
  refine ⟨fun {ω'} _ {E} hemits {turns w w' bytes} hw hok => ?_,
    fun {ω'} _ hreliable turns w => ?_, hsize,
    fun {ω'} _ turns => ?_, writePacketInternal_sent h hlawful hsize⟩
  · rw [(Sliced.writes v).each] at hok
    exact hemits.each hw (ok_of_mapError hok)
  · rw [(Sliced.writes v).each]
    exact writeSlices_reliable hreliable turns (slices v) w
  · rw [(Sliced.writes v).each, Packet.toWriter]
    exact bind_pure_unit

/-- A number and none, in a packet. -/
theorem size_exact_options :
    let t : Ty := .slice (.option .varInt)
    let v : t.Value := [some (⟨300⟩ : VarInt), none]
    let compressor : Stored.Deflater := ⟨false, false, [], Stored.adlerStart, [], Stored.start⟩
    let start := DefaultWriter.new compressor (⟨[]⟩ : Collected) 4
    Serializable.size v = 4 ∧ ∃ frame, Framed Stored.Deflater.Complete none [5, 1, 0xAC, 0x02, 0] frame ∧
      (writePacketInternal 1 none 5 (ToWriter.packet v) start).2.sink.bytes = frame := by
  intro t v compressor start
  have hok : (writePacketInternal 1 none 5 (ToWriter.packet v) start).1 = .ok () := by decide +kernel
  obtain ⟨-, -, hsize, -, hframe⟩ := size_exact Stored.Deflater.deflating Collected.lawful t v
  have hwritten : written v = [1, 0xAC, 0x02, 0] := by decide
  have hid : Leb128.encode (5 : I32).toNat = [5] := Leb128.encode_last (by decide)
  rw [hwritten] at hsize hframe
  obtain ⟨frame, hframed, hsink⟩ := hframe (replied hok)
  have hidentity : start.encoded (start.buffer ++ frame) = frame := Mealy.identity_output _ _
  rw [hid] at hframed
  rw [hidentity] at hsink
  exact ⟨hsize, frame, hframed, hsink⟩

end Ty

end Protocraft
