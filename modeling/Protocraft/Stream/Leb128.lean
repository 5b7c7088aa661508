import Mathlib.Data.Nat.Digits.Defs
import Protocraft.Stream.Io

/-! Numbers in groups of seven bits, the lowest first.

Each byte carries seven bits of the number, and its top bit says whether another
byte follows. `encode` is the shortest form; `decode` reads whatever form stands
at the front of the bytes, within a given number of bytes. -/
namespace Protocraft.Stream.Leb128

def encode (n : Nat) : Bytes :=
  if n < 128 then [BitVec.ofNat 8 n] else BitVec.ofNat 8 (n % 128 + 128) :: encode (n / 128)
termination_by n

/-- The number and the bytes behind it; `none` when no last byte comes within `limit`
bytes. -/
def decode : Nat → Bytes → Option (Nat × Bytes)
  | 0, _ => none
  | _ + 1, [] => none
  | limit + 1, b :: c =>
    if b.toNat < 128 then some (b.toNat, c)
    else (decode limit c).map fun (n, c') => (b.toNat % 128 + 128 * n, c')

theorem encode_last {n : Nat} (h : n < 128) : encode n = [BitVec.ofNat 8 n] := by
  rw [encode, if_pos h]

theorem encode_more {n : Nat} (h : ¬ n < 128) :
    encode n = BitVec.ofNat 8 (n % 128 + 128) :: encode (n / 128) := by
  rw [encode, if_neg h]

theorem encode_ne_nil (n : Nat) : encode n ≠ [] := by
  by_cases h : n < 128
  · simp [encode_last h]
  · simp [encode_more h]

theorem ne_nil_of_decode {limit n : Nat} {c rest : Bytes} (h : decode limit c = some (n, rest)) :
    c ≠ [] := by
  intro hnil
  subst hnil
  cases limit <;> cases h

/-- **What was encoded is decoded again**, whatever follows it. -/
theorem decode_encode (limit n : Nat) (rest : Bytes) (h : (encode n).length ≤ limit) :
    decode limit (encode n ++ rest) = some (n, rest) := by
  induction n using encode.induct generalizing limit with
  | case1 n hn =>
    rw [encode_last hn] at h ⊢
    obtain ⟨limit, rfl⟩ : ∃ l, limit = l + 1 := ⟨limit - 1, by simp at h; omega⟩
    have hb : (BitVec.ofNat 8 n).toNat = n := by
      rw [BitVec.toNat_ofNat]
      omega
    simp only [List.cons_append, List.nil_append, decode, hb, if_pos hn]
  | case2 n hn ih =>
    rw [encode_more hn] at h ⊢
    obtain ⟨limit, rfl⟩ : ∃ l, limit = l + 1 := ⟨limit - 1, by simp at h; omega⟩
    have hb : (BitVec.ofNat 8 (n % 128 + 128)).toNat = n % 128 + 128 := by
      rw [BitVec.toNat_ofNat]
      omega
    rw [List.cons_append, decode, hb, if_neg (by omega), ih limit (by simpa using h)]
    simp only [Option.map_some, Option.some.injEq, Prod.mk.injEq, and_true]
    omega

/-- Decoding depends on nothing behind the last byte. -/
theorem decode_split {limit : Nat} {c rest : Bytes} {n : Nat} (h : decode limit c = some (n, rest)) :
    ∃ used, c = used ++ rest ∧ used.length ≤ limit ∧
      ∀ limit' tail, used.length ≤ limit' → decode limit' (used ++ tail) = some (n, tail) := by
  induction limit generalizing c n with
  | zero => cases h
  | succ limit ih =>
    cases c with
    | nil => cases h
    | cons b c =>
      rw [decode] at h
      split at h
      next hb =>
        cases h
        refine ⟨[b], rfl, by simp, fun limit' tail hle => ?_⟩
        obtain ⟨limit', rfl⟩ : ∃ l, limit' = l + 1 := ⟨limit' - 1, by simp at hle; omega⟩
        simp [decode, hb]
      next hb =>
        obtain ⟨⟨m, c'⟩, hrest, heq⟩ := Option.map_eq_some_iff.mp h
        cases heq
        obtain ⟨used, rfl, hlen, hused⟩ := ih hrest
        refine ⟨b :: used, rfl, by simpa using hlen, fun limit' tail hle => ?_⟩
        obtain ⟨limit', rfl⟩ : ∃ l, limit' = l + 1 := ⟨limit' - 1, by simp at hle; omega⟩
        rw [List.cons_append, decode, if_neg hb, hused limit' tail (by simpa using hle)]
        rfl

/-- Cut before its last group a number cannot be read. -/
theorem decode_cut {limit limit' j : Nat} {c rest : Bytes} {n : Nat}
    (h : decode limit c = some (n, rest)) (hj : j + rest.length < c.length) :
    decode limit' (c.take j) = none := by
  cases hcut : decode limit' (c.take j) with
  | none => rfl
  | some found =>
    obtain ⟨m, left⟩ := found
    obtain ⟨used, rfl, -, hwhole⟩ := decode_split h
    obtain ⟨used', hsplit, -, hagain⟩ := decode_split hcut
    have hfirst := hwhole (used.length + used'.length) rest (by omega)
    have hall : used ++ rest = used' ++ (left ++ (used ++ rest).drop j) := by
      rw [← List.append_assoc, ← hsplit, List.take_append_drop]
    rw [hall, hagain _ _ (by omega)] at hfirst
    have hlength := congrArg List.length (Prod.mk.inj (Option.some.inj hfirst)).2
    rw [List.length_append, List.length_drop] at hlength
    omega

/-- What does not end within the limit does not end there with more behind it. -/
theorem decode_append_none {limit : Nat} {c : Bytes} (h : decode limit c = none)
    (hlong : limit ≤ c.length) (tail : Bytes) : decode limit (c ++ tail) = none := by
  induction limit generalizing c with
  | zero => rfl
  | succ limit ih =>
    cases c with
    | nil => cases hlong
    | cons b c =>
      rw [decode] at h
      split at h
      next => cases h
      next hb =>
        rw [List.cons_append, decode, if_neg hb,
          ih (Option.map_eq_none_iff.mp h) (Nat.le_of_succ_le_succ hlong)]
        rfl

theorem decode_lt {limit : Nat} {c rest : Bytes} {n : Nat} (h : decode limit c = some (n, rest)) :
    n < 128 ^ limit := by
  induction limit generalizing c n with
  | zero => cases h
  | succ limit ih =>
    cases c with
    | nil => cases h
    | cons b c =>
      rw [decode] at h
      split at h
      next hb =>
        cases h
        exact Nat.lt_of_lt_of_le hb (Nat.le_self_pow (Nat.succ_ne_zero limit) 128)
      next hb =>
        obtain ⟨⟨m, c'⟩, hrest, heq⟩ := Option.map_eq_some_iff.mp h
        cases heq
        have := ih hrest
        rw [Nat.pow_succ]
        omega

/-- The first byte has the lowest digit. -/
theorem decode_mod {limit : Nat} {b : Byte} {c rest : Bytes} {n : Nat}
    (h : decode limit (b :: c) = some (n, rest)) : n % 128 = b.toNat % 128 := by
  cases limit with
  | zero => cases h
  | succ limit =>
    rw [decode] at h
    split at h
    next hb =>
      cases h
      rfl
    next hb =>
      obtain ⟨⟨m, c'⟩, hrest, heq⟩ := Option.map_eq_some_iff.mp h
      cases heq
      omega

theorem decode_mod_two {limit : Nat} {b : Byte} {c rest : Bytes} {n : Nat}
    (h : decode limit (b :: c) = some (n, rest)) : n % 2 = b.toNat % 2 := by
  have hdigit := decode_mod h
  omega

theorem encode_length_le (k n : Nat) (h : n < 128 ^ (k + 1)) : (encode n).length ≤ k + 1 := by
  induction k generalizing n with
  | zero => rw [encode_last (by omega)]; simp
  | succ k ih =>
    by_cases hn : n < 128
    · rw [encode_last hn]
      simp
    · have := ih (n / 128) (by rw [Nat.pow_succ] at h; omega)
      rw [encode_more hn]
      simpa using this

/-- One byte for each seven bits begun. -/
theorem encode_length (n : Nat) : (encode n).length = n.log2 / 7 + 1 := by
  induction n using encode.induct with
  | case1 n hn =>
    have : n.log2 < 7 := by
      by_cases h0 : n = 0
      · subst h0
        decide
      · exact (Nat.log2_lt h0).mpr (by omega)
    rw [encode_last hn]
    simp only [List.length_singleton]
    omega
  | case2 n hn ih =>
    have hlog : n.log2 = (n / 128).log2 + 7 := by
      have hdiv : n / 128 ≠ 0 := by omega
      obtain ⟨hlow, hhigh⟩ := (Nat.log2_eq_iff hdiv).mp rfl
      have hpow : 2 ^ ((n / 128).log2 + 7) = 2 ^ (n / 128).log2 * 128 := Nat.pow_add 2 _ 7
      rw [Nat.pow_succ] at hhigh
      rw [Nat.log2_eq_iff (by omega), hpow, Nat.pow_succ, hpow]
      omega
    rw [encode_more hn, List.length_cons, ih, hlog]
    omega

/-! ### Groups

Every byte of a number but its last one has the top bit. -/

def Continues (b : Byte) : Prop := 128 ≤ b.toNat

instance (b : Byte) : Decidable (Continues b) := inferInstanceAs (Decidable (128 ≤ b.toNat))

/-- The number that bytes carry, whatever their top bits. -/
def value (bytes : Bytes) : Nat := Nat.ofDigits 128 (bytes.map fun b => b.toNat % 128)

theorem value_cons (b : Byte) (bytes : Bytes) :
    value (b :: bytes) = b.toNat % 128 + 128 * value bytes := by
  rw [value, List.map_cons, Nat.ofDigits_cons]
  rfl

/-- A number is read up to its last byte. -/
theorem decode_groups {limit : Nat} {used : Bytes} {last : Byte} (hused : ∀ b ∈ used, Continues b)
    (hlast : ¬ Continues last) (hlimit : used.length < limit) (rest : Bytes) :
    decode limit (used ++ last :: rest) = some (value (used ++ [last]), rest) := by
  induction used generalizing limit with
  | nil =>
    obtain ⟨limit, rfl⟩ : ∃ l, limit = l + 1 := ⟨limit - 1, by omega⟩
    have hb : last.toNat < 128 := Nat.not_le.mp hlast
    rw [List.nil_append, List.nil_append, decode, if_pos hb, value_cons, Nat.mod_eq_of_lt hb]
    rfl
  | cons b used ih =>
    obtain ⟨limit, rfl⟩ : ∃ l, limit = l + 1 := ⟨limit - 1, by omega⟩
    have hb : ¬ b.toNat < 128 := Nat.not_lt.mpr (hused b List.mem_cons_self)
    have hrest := @ih limit (fun b hb => hused b (List.mem_cons_of_mem _ hb)) (by simpa using hlimit)
    rw [List.cons_append, decode, if_neg hb, hrest, List.cons_append, value_cons]
    rfl

/-- No number ends within the limit where all bytes go on. -/
theorem decode_eq_none {limit : Nat} {c : Bytes} (h : ∀ b ∈ c.take limit, Continues b) :
    decode limit c = none := by
  induction limit generalizing c with
  | zero => rfl
  | succ limit ih =>
    cases c with
    | nil => rfl
    | cons b c =>
      rw [List.take_succ_cons] at h
      have hb : ¬ b.toNat < 128 := Nat.not_lt.mpr (h b List.mem_cons_self)
      rw [decode, if_neg hb, ih fun b hb => h b (List.mem_cons_of_mem _ hb)]
      rfl

/-- Bytes that all go on are within the number. -/
theorem decode_behind {limit n : Nat} {used left rest : Bytes} (hused : ∀ b ∈ used, Continues b)
    (h : decode limit (used ++ left) = some (n, rest)) : rest <:+ left := by
  obtain ⟨used', hsplit, -, hagain⟩ := decode_split h
  obtain ⟨more, -, rfl⟩ | ⟨more, rfl, -⟩ := List.append_eq_append_iff.mp hsplit
  · exact List.suffix_append more rest
  · have hread := hagain used'.length [] (Nat.le_refl _)
    have hnone : decode used'.length (used' ++ []) = none := by
      refine decode_eq_none fun b hb => hused b (List.mem_append_left more ?_)
      rw [List.append_nil] at hb
      exact List.mem_of_mem_take hb
    rw [hnone] at hread
    cases hread

/-- Where not all bytes go on one of them is the first that does not. -/
theorem exists_last {limit : Nat} {c : Bytes} (h : ¬ ∀ b ∈ c.take limit, Continues b) :
    ∃ used last rest, c = used ++ last :: rest ∧ (∀ b ∈ used, Continues b) ∧ ¬ Continues last ∧
      used.length < limit := by
  induction limit generalizing c with
  | zero => exact absurd (by simp) h
  | succ limit ih =>
    cases c with
    | nil => exact absurd (by simp) h
    | cons b c =>
      by_cases hb : Continues b
      · rw [List.take_succ_cons, List.forall_mem_cons, not_and] at h
        obtain ⟨used, last, rest, rfl, hused, hlast, hwithin⟩ := ih (h hb)
        refine ⟨b :: used, last, rest, rfl, List.forall_mem_cons.mpr ⟨hb, hused⟩, hlast, ?_⟩
        simpa using hwithin
      · exact ⟨[], b, c, rfl, by simp, hb, Nat.succ_pos limit⟩

theorem decode_eq_none_iff {limit : Nat} {c : Bytes} :
    decode limit c = none ↔ ∀ b ∈ c.take limit, Continues b := by
  refine ⟨fun h => ?_, decode_eq_none⟩
  by_contra hends
  obtain ⟨used, last, rest, rfl, hused, hlast, hwithin⟩ := exists_last hends
  rw [decode_groups hused hlast hwithin rest] at h
  cases h

theorem encode_groups (n : Nat) : ∃ used last, encode n = used ++ [last] ∧ (∀ b ∈ used, Continues b) ∧
    ¬ Continues last := by
  induction n using encode.induct with
  | case1 n hn =>
    refine ⟨[], BitVec.ofNat 8 n, encode_last hn, by simp, ?_⟩
    rw [Continues, BitVec.toNat_ofNat]
    omega
  | case2 n hn ih =>
    obtain ⟨used, last, hencode, hused, hlast⟩ := ih
    refine ⟨BitVec.ofNat 8 (n % 128 + 128) :: used, last, by rw [encode_more hn, hencode]; rfl,
      ?_, hlast⟩
    refine List.forall_mem_cons.mpr ⟨?_, hused⟩
    rw [Continues, BitVec.toNat_ofNat]
    omega

/-- **No form of a number is shorter than the one it is encoded to.** -/
theorem encode_shortest {limit : Nat} {c : Bytes} {n m : Nat} (h : decode limit c = some (n, []))
    (hm : m ≤ n) : (encode m).length ≤ c.length := by
  obtain ⟨used, rfl, -, hused⟩ := decode_split h
  rw [List.append_nil]
  have hlt := decode_lt (hused used.length [] (Nat.le_refl _))
  obtain ⟨k, hk⟩ : ∃ k, used.length = k + 1 := by
    cases used with
    | nil => exact absurd (hused 0 [] (Nat.le_refl _)) (by simp [decode])
    | cons b used => exact ⟨used.length, rfl⟩
  rw [hk] at hlt ⊢
  exact encode_length_le k m (Nat.lt_of_le_of_lt hm hlt)

end Protocraft.Stream.Leb128
