import Protocraft.Stream.Io

/-! Machines that turn a stream into another one letter at a time, and CFB8.

A machine answers each letter with one letter and moves on; what it answers to a
list depends on nothing but the state it started in, so cutting the list
anywhere changes nothing (`output_append`). Two machines are `Inverse` when the
second, fed what the first answers, answers what the first was fed. CFB8 is such
a pair over any block cipher, although decryption never inverts a block. -/
namespace Protocraft.Stream

structure Mealy (σ α β : Type) where
  step : σ → α → β × σ

namespace Mealy
variable {σ τ α β : Type} (m : Mealy σ α β)

def output : σ → List α → List β
  | _, [] => []
  | s, x :: xs => (m.step s x).1 :: output (m.step s x).2 xs

def after : σ → List α → σ
  | s, [] => s
  | s, x :: xs => after (m.step s x).2 xs

@[simp] theorem output_nil (s : σ) : m.output s [] = [] := rfl

@[simp] theorem after_nil (s : σ) : m.after s [] = s := rfl

theorem after_append (s : σ) (xs ys : List α) : m.after s (xs ++ ys) = m.after (m.after s xs) ys := by
  induction xs generalizing s with
  | nil => rfl
  | cons x xs ih => exact ih _

theorem output_append (s : σ) (xs ys : List α) :
    m.output s (xs ++ ys) = m.output s xs ++ m.output (m.after s xs) ys := by
  induction xs generalizing s with
  | nil => rfl
  | cons x xs ih => exact congrArg ((m.step s x).1 :: ·) (ih _)

@[simp] theorem length_output (s : σ) (xs : List α) : (m.output s xs).length = xs.length := by
  induction xs generalizing s with
  | nil => rfl
  | cons x xs ih => exact congrArg (· + 1) (ih _)

theorem output_prefix (s : σ) {xs ys : List α} (h : xs <+: ys) : m.output s xs <+: m.output s ys := by
  obtain ⟨zs, rfl⟩ := h
  rw [output_append]
  exact List.prefix_append _ _

/-- The machine that passes its letters on. -/
def identity : Mealy Unit α α := ⟨fun _ x => (x, ())⟩

@[simp] theorem identity_output (s : Unit) (xs : List α) : identity.output s xs = xs := by
  induction xs with
  | nil => rfl
  | cons x xs ih => exact congrArg (x :: ·) ih

/-- The machine that passes its letters on as long as there is no state. -/
def optional (m : Mealy σ α α) : Mealy (Option σ) α α where
  step
    | none, x => (x, none)
    | some s, x => ((m.step s x).1, some (m.step s x).2)

@[simp] theorem optional_output_none (m : Mealy σ α α) (xs : List α) :
    m.optional.output none xs = xs := by
  induction xs with
  | nil => rfl
  | cons x xs ih => exact congrArg (x :: ·) ih

@[simp] theorem optional_output_some (m : Mealy σ α α) (s : σ) (xs : List α) :
    m.optional.output (some s) xs = m.output s xs := by
  induction xs generalizing s with
  | nil => rfl
  | cons x xs ih => exact congrArg ((m.step s x).1 :: ·) (ih _)

@[simp] theorem optional_after_none (m : Mealy σ α α) (xs : List α) :
    m.optional.after none xs = none := by
  induction xs with
  | nil => rfl
  | cons x xs ih => exact ih

@[simp] theorem optional_after_some (m : Mealy σ α α) (s : σ) (xs : List α) :
    m.optional.after (some s) xs = some (m.after s xs) := by
  induction xs generalizing s with
  | nil => rfl
  | cons x xs ih => exact ih _

/-- In states that belong together, `m'` answers the answer of `m` with the letter
`m` was fed, and the states it leads to belong together again. -/
structure Inverse (m : Mealy σ α β) (m' : Mealy τ β α) (Paired : σ → τ → Prop) : Prop where
  letter : ∀ {s t} x, Paired s t → (m'.step t (m.step s x).1).1 = x
  next : ∀ {s t} x, Paired s t → Paired (m.step s x).2 (m'.step t (m.step s x).1).2

variable {m} {m' : Mealy τ β α} {Paired : σ → τ → Prop}

theorem Inverse.output (h : Inverse m m' Paired) {s : σ} {t : τ} (hst : Paired s t) (xs : List α) :
    m'.output t (m.output s xs) = xs := by
  induction xs generalizing s t with
  | nil => rfl
  | cons x xs ih =>
    show (m'.step t (m.step s x).1).1 :: m'.output _ (m.output _ xs) = x :: xs
    rw [h.letter x hst, ih (h.next x hst)]

theorem Inverse.after (h : Inverse m m' Paired) {s : σ} {t : τ} (hst : Paired s t) (xs : List α) :
    Paired (m.after s xs) (m'.after t (m.output s xs)) := by
  induction xs generalizing s t with
  | nil => exact hst
  | cons x xs ih => exact ih (h.next x hst)

end Mealy

/-! ### CFB8 -/

abbrev Block := Fin 16 → Byte

/-- A block cipher under its key, and the last sixteen bytes of ciphertext. -/
structure Cfb8 where
  cipher : Block → Block
  register : Block

namespace Cfb8

/-- The initial vector is the key itself. -/
def new (aes : Block → Block → Block) (key : Block) : Cfb8 := ⟨aes key, key⟩

def shift (register : Block) (b : Byte) : Block := fun i =>
  if h : i.val + 1 < 16 then register ⟨i.val + 1, h⟩ else b

def feed (s : Cfb8) (b : Byte) : Cfb8 := {s with register := shift s.register b}

/-- The key stream byte for the next byte. -/
def mask (s : Cfb8) : Byte := s.cipher s.register 0

def encryptor : Mealy Cfb8 Byte Byte := ⟨fun s b => (b ^^^ s.mask, s.feed (b ^^^ s.mask))⟩

def decryptor : Mealy Cfb8 Byte Byte := ⟨fun s b => (b ^^^ s.mask, s.feed b)⟩

/-- **Decryption from the state encryption started in gives back the plaintext.** -/
theorem inverse : Mealy.Inverse encryptor decryptor Eq where
  letter := by
    intro s _ b h
    obtain rfl := h
    show b ^^^ s.mask ^^^ s.mask = b
    rw [BitVec.xor_assoc, BitVec.xor_self, BitVec.xor_zero]
  next := by
    intro s _ b h
    obtain rfl := h
    rfl

theorem decrypt_encrypt (s : Cfb8) (plain : Bytes) :
    decryptor.output s (encryptor.output s plain) = plain :=
  inverse.output rfl plain

/-- With a cipher that is always the same block the key stream is one byte. -/
theorem constant_output (block register : Block) (c : Bytes) :
    decryptor.output ⟨fun _ => block, register⟩ c = c.map (· ^^^ block 0) := by
  induction c generalizing register with
  | nil => rfl
  | cons b c ih => exact congrArg (_ :: ·) (ih _)

end Cfb8

end Protocraft.Stream
