import Mathlib.Data.Fin.Tuple.Basic
import Mathlib.Data.Vector.Basic
import Protocraft.Protocol.Write
import Protocraft.Stream.BigEndian
import Protocraft.Stream.Delimited

/-! What is read and written by its type.

A type that is written declares how many bytes its values take, and one that is read finds its
own end. Options, slices, arrays and tuples are written part by part, so both are a matter of
their parts: `Sized` and `Delimited` pass from these to the whole. -/
namespace Protocraft
open Protocraft.Stream

class FromReader (α : Type) where
  fromReader {β : Type} : Program ReadError β α

class ToWriter (α : Type) where
  toWriter {ω : Type} [Writer ω] (turns : Nat) (value : α) : Action (Stop WriteError) ω Unit

class Serializable (α : Type) where
  size : α → Nat

/-! ### What is written -/

section Writer
variable {ω : Type} [Writer ω]

/-- `write_bytes!`. -/
def writeBytes (turns : Nat) (bytes : Bytes) : Action (Stop WriteError) ω Unit :=
  mapError (Stop.map .streamError) (Writer.write turns bytes)

def writeSlices (turns : Nat) (slices : List Bytes) : Action (Stop WriteError) ω Unit :=
  mapError (Stop.map .streamError) (writeEach turns slices)

@[simp] theorem writeSlices_nil (turns : Nat) :
    (writeSlices turns [] : Action (Stop WriteError) ω Unit) = pure () := rfl

@[simp] theorem writeSlices_cons (turns : Nat) (data : Bytes) (slices : List Bytes) :
    (writeSlices turns (data :: slices) : Action (Stop WriteError) ω Unit) =
      (do writeBytes turns data; writeSlices turns slices) := by
  funext w
  simp only [writeSlices, writeBytes, writeEach, mapError_apply, bind_apply]
  rcases Writer.write turns data w with ⟨e | _, w'⟩ <;> rfl

@[simp] theorem writeSlices_append (turns : Nat) (slices slices' : List Bytes) :
    (writeSlices turns (slices ++ slices') : Action (Stop WriteError) ω Unit) =
      (do writeSlices turns slices; writeSlices turns slices') := by
  induction slices with
  | nil => simp
  | cons data slices ih => simp [ih]

end Writer

/-- Writing fails only with the sink. -/
theorem writeSlices_reliable {ω : Type} [Write ω] (h : Reliable ω) (turns : Nat)
    (slices : List Bytes) (w : ω) :
    ∃ w', writeSlices turns slices w = (.ok (), w') := by
  induction slices generalizing w with
  | nil => exact ⟨w, rfl⟩
  | cons data slices ih =>
    obtain ⟨w₁, hdata⟩ := writeAll_reliable h data w
    obtain ⟨w', hrest⟩ := ih w₁
    have hwrite : writeBytes turns data w = (.ok (), w₁) := mapError_ok (mapError_ok hdata)
    exact ⟨w', by rw [writeSlices_cons, bind_ok hwrite, hrest]⟩

/-- A writer that keeps every slice it is given. -/
structure Recorder where
  slices : List Bytes

instance : Writer Recorder where
  write _ data := fun w => (.ok (), ⟨w.slices ++ [data]⟩)
  flush _ := fun w => (.ok (), w)

theorem Recorder.keeps_each (turns : Nat) (slices : List Bytes) (w : Recorder) :
    writeSlices turns slices w = (.ok (), ⟨w.slices ++ slices⟩) := by
  induction slices generalizing w with
  | nil => rw [List.append_nil]; rfl
  | cons data slices ih =>
    have hwrite : writeBytes turns data w = (.ok (), ⟨w.slices ++ [data]⟩) := rfl
    rw [writeSlices_cons, bind_ok hwrite, ih, List.append_assoc]
    rfl

namespace ToWriter
variable {α : Type} [ToWriter α]

/-- The slices `v` is written as. -/
def slices (v : α) : List Bytes := (toWriter 0 v (⟨[]⟩ : Recorder)).2.slices

def written (v : α) : Bytes := (slices v).flatten

/-- Writing `v` is writing these slices, whatever the writer. -/
structure WrittenAs (v : α) (slices : List Bytes) : Prop where
  each : ∀ {ω : Type} [Writer ω] (turns : Nat),
    (toWriter turns v : Action (Stop WriteError) ω Unit) = writeSlices turns slices

theorem WrittenAs.slices_eq {v : α} {each : List Bytes} (h : WrittenAs v each) : slices v = each := by
  rw [slices, h.each, Recorder.keeps_each]
  rfl

theorem WrittenAs.written_eq {v : α} {each : List Bytes} (h : WrittenAs v each) :
    written v = each.flatten := by
  rw [written, h.slices_eq]

/-- The packet of a value. -/
def packet [Serializable α] (v : α) : Packet := ⟨Serializable.size v, slices v, none⟩

end ToWriter

open ToWriter (WrittenAs slices written)

/-- Written by calls that do not depend on the writer, and without failing on its own. -/
class Sliced (α : Type) [ToWriter α] : Prop where
  writes : ∀ v : α, WrittenAs v (slices v)

/-- Written as many bytes as declared. -/
class Sized (α : Type) [ToWriter α] [Serializable α] : Prop extends Sliced α where
  size_eq : ∀ v : α, Serializable.size v = (written v).length

def Streaming : ReadError → Prop
  | .streamError _ => True
  | _ => False

/-- Read back from what was written, and cut short not read at all. -/
class Delimited (α : Type) [FromReader α] [ToWriter α] : Prop extends Sliced α where
  delimits : ∀ {β : Type} (v : α),
    Delimits Streaming (FromReader.fromReader : Program ReadError β α) (written v) v

theorem Sliced.of {α : Type} [ToWriter α] {each : α → List Bytes} (h : ∀ v, WrittenAs v (each v)) :
    Sliced α where
  writes v := by
    rw [(h v).slices_eq]
    exact h v

/-- A value written by one call. -/
theorem writtenAs_one {α : Type} [ToWriter α] {v : α} {bytes : Bytes}
    (h : ∀ {ω : Type} [Writer ω] (turns : Nat),
      (ToWriter.toWriter turns v : Action (Stop WriteError) ω Unit) = writeBytes turns bytes) :
    WrittenAs v [bytes] where
  each turns := by simp [h]

/-! ### The primitives -/

/-- What `build_primative!` is called for. -/
inductive Primative where
  | u8 | i8 | u16 | i16 | u32 | i32 | u64 | i64 | u128 | i128 | f32 | f64
  deriving DecidableEq, Repr

namespace Primative

def bytes : Primative → Nat
  | u8 | i8 => 1
  | u16 | i16 => 2
  | u32 | i32 | f32 => 4
  | u64 | i64 | f64 => 8
  | u128 | i128 => 16

/-- The bits of a value, of a float too. -/
abbrev Value (p : Primative) : Type := BitVec (8 * p.bytes)

def fromReader {β : Type} (p : Primative) : Program ReadError β p.Value := do
  let buf ← readBytes p.bytes
  return BigEndian.fromBeBytes p.bytes buf

def toWriter {ω : Type} [Writer ω] (turns : Nat) (p : Primative) (value : p.Value) :
    Action (Stop WriteError) ω Unit :=
  writeBytes turns (BigEndian.toBeBytes value)

instance (p : Primative) : FromReader p.Value := ⟨p.fromReader⟩

instance (p : Primative) : ToWriter p.Value := ⟨fun turns value => p.toWriter turns value⟩

instance (p : Primative) : Serializable p.Value := ⟨fun _ => p.bytes⟩

theorem writtenAs {p : Primative} (v : p.Value) : WrittenAs v [BigEndian.toBeBytes v] :=
  writtenAs_one fun _ => rfl

theorem written_eq {p : Primative} (v : p.Value) : written v = BigEndian.toBeBytes v := by
  simp [(writtenAs v).written_eq]

instance (p : Primative) : Sliced p.Value := .of writtenAs

instance (p : Primative) : Sized p.Value where
  size_eq v := by
    rw [written_eq, BigEndian.length_toBeBytes]
    rfl

instance (p : Primative) : Delimited p.Value where
  delimits {β} v := by
    have hbytes : Delimits Streaming (readBytes p.bytes : Program ReadError β Bytes)
        (BigEndian.toBeBytes v) (BigEndian.toBeBytes v) :=
      .readExact (BigEndian.length_toBeBytes v) fun _ => trivial
    have hvalue := hbytes.map (BigEndian.fromBeBytes p.bytes)
    rw [BigEndian.fromBeBytes_toBeBytes] at hvalue
    rw [written_eq]
    exact hvalue

end Primative

/-! ### `bool` -/

instance : FromReader Bool where
  fromReader := do
    let byte ← Primative.u8.fromReader
    return byte != 0

instance : ToWriter Bool where
  toWriter turns value :=
    let byte := if value then 0x01 else 0x00
    Primative.u8.toWriter turns byte

instance : Serializable Bool := ⟨fun _ => 1⟩

theorem writtenAs_bool (v : Bool) : WrittenAs v [[if v then 0x01 else 0x00]] :=
  writtenAs_one fun _ => by cases v <;> rfl

theorem written_bool (v : Bool) : written v = [if v then 0x01 else 0x00] := (writtenAs_bool v).written_eq

instance : Sliced Bool := .of writtenAs_bool

instance : Sized Bool where
  size_eq v := by
    rw [written_bool]
    rfl

instance : Delimited Bool where
  delimits {β} v := by
    have hbyte := @Delimited.delimits Primative.u8.Value _ _ _ β (if v then 0x01 else 0x00)
    have hvalue := hbyte.map fun byte => byte != 0
    rw [Primative.written_eq] at hvalue
    rw [written_bool]
    cases v <;> exact hvalue

/-! ### `VarInt` -/

namespace VarInt

instance : FromReader VarInt := ⟨fromReader⟩

instance : ToWriter VarInt := ⟨toWriter⟩

instance : Serializable VarInt := ⟨size⟩

theorem writtenAs (v : VarInt) : WrittenAs v [Leb128.encode v.value.toNat] :=
  writtenAs_one fun turns => toWriter_eq turns v

theorem written_eq (v : VarInt) : written v = Leb128.encode v.value.toNat := by
  simp [(writtenAs v).written_eq]

instance : Sliced VarInt := .of writtenAs

instance : Sized VarInt where
  size_eq v := by
    rw [written_eq]
    exact size_eq v

/-- Cut short it goes on to the end. -/
theorem fromReader_cut {β : Type} (rem : Bytes → β) {v : VarInt} {short : Bytes}
    (hshort : short <+: Leb128.encode v.value.toNat) (hne : short ≠ Leb128.encode v.value.toNat) :
    (fromReader : Program ReadError β VarInt).eval rem short =
      (.error (.streamError failedToFill), []) := by
  have hlt : short.length < 5 := by
    have hle := hshort.length_le
    have hmost := v.encode_length_le
    have hshorter : short.length ≠ (Leb128.encode v.value.toNat).length :=
      fun h => hne (hshort.eq_of_length h)
    omega
  obtain ⟨used, last, hencode, hused, -⟩ := Leb128.encode_groups v.value.toNat
  rw [hencode] at hshort hne
  have hwithin : short <+: used := (List.prefix_concat_iff.mp hshort).resolve_left hne
  have hgoes : ∀ b ∈ short.take 5, Leb128.Continues b := by
    intro b hb
    exact hused b (hwithin.subset (List.mem_of_mem_take hb))
  rw [fromReader_eval_none rem (Leb128.decode_eq_none hgoes), if_neg (Nat.not_le.mpr hlt)]

instance : Delimited VarInt where
  delimits v := by
    rw [written_eq]
    refine ⟨fun rem rest => fromReader_encode rem v rest, fun rem short hshort hne => ?_⟩
    exact ⟨_, congrArg Prod.fst (fromReader_cut rem hshort hne), trivial⟩

end VarInt

/-! ### `str` -/

/-- `as_bytes`. -/
def asBytes (s : String) : Bytes := s.toByteArray.data.toList.map UInt8.toBitVec

instance : ToWriter String := ⟨fun turns value => writeBytes turns (asBytes value)⟩

instance : Serializable String := ⟨String.utf8ByteSize⟩

theorem writtenAs_str (v : String) : WrittenAs v [asBytes v] := writtenAs_one fun _ => rfl

instance : Sliced String := .of writtenAs_str

instance : Sized String where
  size_eq v := by simp [(writtenAs_str v).written_eq, asBytes, Serializable.size]

/-! ### Bytes -/

/-- `BytesRef`. -/
structure BytesRef where
  bytes : Bytes
  deriving DecidableEq, Repr

instance : ToWriter BytesRef := ⟨fun turns value => writeBytes turns value.bytes⟩

instance : Serializable BytesRef := ⟨fun value => value.bytes.length⟩

theorem BytesRef.writtenAs (v : BytesRef) : WrittenAs v [v.bytes] := writtenAs_one fun _ => rfl

instance : Sliced BytesRef := .of BytesRef.writtenAs

instance : Sized BytesRef where
  size_eq v := by simp [v.writtenAs.written_eq, Serializable.size]

/-- `Bytes<N>`. -/
structure FixedBytes (n : Nat) where
  bytes : Bytes
  length_eq : bytes.length = n
  deriving DecidableEq

namespace FixedBytes
variable {n : Nat}

/-- `as_ref`. -/
def asRef (value : FixedBytes n) : BytesRef := ⟨value.bytes⟩

/-- A buffer of zeros, with these bytes read into it. -/
def ofBuffer (n : Nat) (read : Bytes) : FixedBytes n where
  bytes := (read ++ List.replicate n 0).take n
  length_eq := by simp

theorem ofBuffer_bytes (value : FixedBytes n) : ofBuffer n value.bytes = value := by
  obtain ⟨bytes, rfl⟩ := value
  simp [ofBuffer]

instance : FromReader (FixedBytes n) where
  fromReader := do
    let buf ← readBytes n
    return ofBuffer n buf

instance : ToWriter (FixedBytes n) := ⟨fun turns value => ToWriter.toWriter turns value.asRef⟩

instance : Serializable (FixedBytes n) := ⟨fun value => Serializable.size value.asRef⟩

theorem writtenAs (v : FixedBytes n) : WrittenAs v [v.bytes] := writtenAs_one fun _ => rfl

theorem written_eq (v : FixedBytes n) : written v = v.bytes := by simp [v.writtenAs.written_eq]

instance : Sliced (FixedBytes n) := .of writtenAs

instance : Sized (FixedBytes n) where
  size_eq v := by
    rw [written_eq]
    rfl

instance : Delimited (FixedBytes n) where
  delimits {β} v := by
    have hbytes : Delimits Streaming (readBytes n : Program ReadError β Bytes) v.bytes v.bytes :=
      .readExact v.length_eq fun _ => trivial
    have hvalue := hbytes.map (ofBuffer n)
    rw [ofBuffer_bytes] at hvalue
    rw [written_eq]
    exact hvalue

end FixedBytes

end Protocraft
