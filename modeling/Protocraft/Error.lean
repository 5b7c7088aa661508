import Protocraft.Stream.Program

/-! What reading and writing can fail with, over streams that fail with `IoError`. -/
namespace Protocraft
open Protocraft.Stream

abbrev I32 := BitVec 32

inductive ReadError where
  | streamError (error : IoError)
  | overSized (name : String) (maximum was : Nat)
  | negativeLength (name : String)
  | unknownPacket (state : String) (id : I32)
  | badEnum (name : String) (value : I32)
  | stringDecode (name : String)
  | malformedLegacyPing
  | custom (text : String)
  deriving DecidableEq, Repr

inductive WriteError where
  | streamError (error : IoError)
  | overSized (name : String) (maximum was : Nat)
  | malformedVarInt
  | unknownPacket (state : String) (id : I32)
  | custom (text : String)
  deriving DecidableEq, Repr

/-! ### Reading the primitives -/

section Read
variable {β : Type}

/-- `read_bytes!`. -/
def readBytes (count : Nat) : Program ReadError β Bytes :=
  .readExact count fun reply => .done (reply.mapError .streamError)

/-- `read!(u8)`. -/
def readU8 : Program ReadError β Byte := do
  let bytes ← readBytes 1
  return bytes.headD 0

@[simp] theorem readU8_eval_cons (rem : Bytes → β) (b : Byte) (c : Bytes) :
    (readU8 : Program ReadError β Byte).eval rem (b :: c) = (.ok b, c) := rfl

@[simp] theorem readU8_eval_nil (rem : Bytes → β) :
    (readU8 : Program ReadError β Byte).eval rem [] =
      (.error (.streamError failedToFill), []) := rfl

theorem readU8_bind_eval_cons {α : Type} (rem : Bytes → β) (f : Byte → Program ReadError β α)
    (b : Byte) (c : Bytes) : (readU8 >>= f).eval rem (b :: c) = (f b).eval rem c :=
  Program.eval_bind_ok (readU8_eval_cons rem b c)

theorem readU8_bind_eval_nil {α : Type} (rem : Bytes → β) (f : Byte → Program ReadError β α) :
    (readU8 >>= f).eval rem [] = (.error (.streamError failedToFill), []) :=
  Program.eval_bind_error (readU8_eval_nil rem)

theorem readU8_fails {E : ReadError → Prop} (h : ∀ e, E (.streamError e)) :
    (readU8 : Program ReadError β Byte).FailsWith E := by
  intro reply
  obtain e | bytes := reply
  · exact h e
  · exact trivial

theorem readU8_strict : (readU8 : Program ReadError β Byte).Strict :=
  .readExact (fun e => ⟨.streamError e, rfl⟩) fun _ => .done _

end Read

end Protocraft
