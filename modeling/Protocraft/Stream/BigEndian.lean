import Protocraft.Stream.Io

/-! Words as their bytes, the highest first. -/
namespace Protocraft.Stream.BigEndian

/-- The lowest `n` bytes of a number. -/
def encode : Nat → Nat → Bytes
  | 0, _ => []
  | n + 1, x => encode n (x / 256) ++ [BitVec.ofNat 8 x]

def decode (bytes : Bytes) : Nat := bytes.foldl (fun x b => 256 * x + b.toNat) 0

@[simp] theorem length_encode (n x : Nat) : (encode n x).length = n := by
  induction n generalizing x with
  | zero => rfl
  | succ n ih => rw [encode, List.length_append, ih, List.length_singleton]

theorem decode_append (bytes : Bytes) (b : Byte) :
    decode (bytes ++ [b]) = 256 * decode bytes + b.toNat := by
  rw [decode, List.foldl_append]
  rfl

theorem decode_encode (n x : Nat) : decode (encode n x) = x % 256 ^ n := by
  induction n generalizing x with
  | zero =>
    rw [Nat.pow_zero, Nat.mod_one]
    rfl
  | succ n ih =>
    have hlow : (BitVec.ofNat 8 x).toNat = x % 256 := BitVec.toNat_ofNat x 8
    rw [encode, decode_append, ih, hlow, Nat.pow_succ', Nat.mod_mul, Nat.add_comm]

/-- A word of `n` bytes. -/
def toBeBytes {n : Nat} (x : BitVec (8 * n)) : Bytes := encode n x.toNat

def fromBeBytes (n : Nat) (bytes : Bytes) : BitVec (8 * n) := BitVec.ofNat (8 * n) (decode bytes)

@[simp] theorem length_toBeBytes {n : Nat} (x : BitVec (8 * n)) : (toBeBytes x).length = n :=
  length_encode n _

/-- **A word reads back from its bytes.** -/
theorem fromBeBytes_toBeBytes {n : Nat} (x : BitVec (8 * n)) : fromBeBytes n (toBeBytes x) = x := by
  have hpow : 256 ^ n = 2 ^ (8 * n) := by rw [Nat.pow_mul]
  apply BitVec.eq_of_toNat_eq
  rw [fromBeBytes, toBeBytes, decode_encode, hpow, BitVec.toNat_ofNat, Nat.mod_mod,
    Nat.mod_eq_of_lt x.isLt]

theorem toBeBytes_injective {n : Nat} {x y : BitVec (8 * n)} (h : toBeBytes x = toBeBytes y) :
    x = y := by
  rw [← fromBeBytes_toBeBytes x, h, fromBeBytes_toBeBytes]

/-- Words in a row, too. -/
theorem flatMap_toBeBytes_injective {n : Nat} (hn : 0 < n) {xs ys : List (BitVec (8 * n))}
    (h : xs.flatMap toBeBytes = ys.flatMap toBeBytes) : xs = ys := by
  have hne : ∀ (x : BitVec (8 * n)) (bytes : Bytes), toBeBytes x ++ bytes ≠ [] := by
    intro x bytes hnil
    have hlength := congrArg List.length hnil
    rw [List.length_append, length_toBeBytes, List.length_nil] at hlength
    omega
  induction xs generalizing ys with
  | nil =>
    cases ys with
    | nil => rfl
    | cons y ys => exact absurd h.symm (hne y _)
  | cons x xs ih =>
    cases ys with
    | nil => exact absurd h (hne x _)
    | cons y ys =>
      rw [List.flatMap_cons, List.flatMap_cons] at h
      obtain ⟨hfirst, hrest⟩ := List.append_inj h (by rw [length_toBeBytes, length_toBeBytes])
      rw [toBeBytes_injective hfirst, ih hrest]

end Protocraft.Stream.BigEndian
