import Mathlib.Algebra.Ring.Nat
import Mathlib.Data.List.Basic

/-! Byte streams as `std::io` has them.

An operation on a stream takes the stream's state to a result and a state, also
when it fails: a failing call keeps what it did before it failed. `Read`,
`BufRead` and `Write` are the traits; `readExact`, `discard` and `writeAll` are
the loops every reader and writer gets from them; `Take`, `BufReader` and `Slice`
are the standard library's readers.

An interrupted call (`ErrorKind::Interrupted`) is made again by each of these
loops and touches no state, so no stream here reports one. -/
namespace Protocraft.Stream

abbrev Byte := BitVec 8
abbrev Bytes := List Byte

inductive ErrorKind where
  | unexpectedEof
  | writeZero
  | wouldBlock
  | timedOut
  | other
  deriving DecidableEq, Repr

structure IoError where
  kind : ErrorKind
  message : String
  deriving DecidableEq, Repr

/-! ### Operations -/

/-- A call on a `&mut σ` that returns `Result<α, ε>`. -/
abbrev Action (ε σ α : Type) := ExceptT ε (StateM σ) α

section Action
variable {ε ε' σ τ α β : Type}

theorem bind_apply (m : Action ε σ α) (f : α → Action ε σ β) (s : σ) :
    (m >>= f) s = match m s with
      | (.ok a, s') => f a s'
      | (.error e, s') => (.error e, s') := by
  show (match m s with | (r, s') => ExceptT.bindCont f r s') = _
  rcases m s with ⟨_ | a, s'⟩ <;> rfl

theorem bind_ok {m : Action ε σ α} {f : α → Action ε σ β} {s s' : σ} {a : α}
    (h : m s = (.ok a, s')) : (m >>= f) s = f a s' := by
  rw [bind_apply, h]

theorem bind_error {m : Action ε σ α} {f : α → Action ε σ β} {s s' : σ} {e : ε}
    (h : m s = (.error e, s')) : (m >>= f) s = (.error e, s') := by
  rw [bind_apply, h]

theorem ok_of_bind {m : Action ε σ α} {f : α → Action ε σ β} {s s'' : σ} {b : β}
    (h : (m >>= f) s = (.ok b, s'')) : ∃ a s', m s = (.ok a, s') ∧ f a s' = (.ok b, s'') := by
  rw [bind_apply] at h
  split at h
  next a s' hm => exact ⟨a, s', hm, h⟩
  next => cases h

theorem replied {m : Action ε σ α} {s : σ} {reply : Except ε α} (h : (m s).1 = reply) :
    m s = (reply, (m s).2) := Prod.ext h rfl

@[simp] theorem pure_apply (a : α) (s : σ) : (pure a : Action ε σ α) s = (.ok a, s) := rfl

@[simp] theorem throw_apply (e : ε) (s : σ) : (throw e : Action ε σ α) s = (.error e, s) := rfl

/-- The result as a value: what `let result = call();` binds. -/
def attempt (m : Action ε σ α) : Action ε' σ (Except ε α) := fun s => (.ok (m s).1, (m s).2)

/-- A call on a state built around this one, which is taken out again when the
borrow ends, whatever the call returned. -/
def borrowing (enter : σ → τ) (leave : τ → σ → σ) (m : Action ε τ α) : Action ε σ α :=
  fun s => ((m (enter s)).1, leave (m (enter s)).2 s)

/-- `map_err`. -/
def mapError (f : ε → ε') (m : Action ε σ α) : Action ε' σ α := fun s => ((m s).1.mapError f, (m s).2)

@[simp] theorem attempt_apply (m : Action ε σ α) (s : σ) :
    (attempt m : Action ε' σ _) s = (.ok (m s).1, (m s).2) := rfl

@[simp] theorem borrowing_apply (enter : σ → τ) (leave : τ → σ → σ) (m : Action ε τ α) (s : σ) :
    borrowing enter leave m s = ((m (enter s)).1, leave (m (enter s)).2 s) := rfl

theorem ok_of_borrowing {enter : σ → τ} {leave : τ → σ → σ} {m : Action ε τ α} {s s' : σ} {a : α}
    (h : borrowing enter leave m s = (.ok a, s')) :
    ∃ t, m (enter s) = (.ok a, t) ∧ s' = leave t s := by
  rw [borrowing_apply] at h
  obtain ⟨hreply, hleft⟩ := Prod.mk.inj h
  exact ⟨(m (enter s)).2, Prod.ext hreply rfl, hleft.symm⟩

@[simp] theorem mapError_apply (f : ε → ε') (m : Action ε σ α) (s : σ) :
    mapError f m s = ((m s).1.mapError f, (m s).2) := rfl

theorem ok_of_mapError {f : ε → ε'} {m : Action ε σ α} {s s' : σ} {a : α}
    (h : mapError f m s = (.ok a, s')) : m s = (.ok a, s') := by
  rw [mapError_apply] at h
  rcases hm : m s with ⟨e | b, s₁⟩ <;> rw [hm] at h <;> cases h
  rfl

theorem mapError_ok {f : ε → ε'} {m : Action ε σ α} {s s' : σ} {a : α} (h : m s = (.ok a, s')) :
    mapError f m s = (.ok a, s') := by
  rw [mapError_apply, h]
  rfl

theorem mapError_error {f : ε → ε'} {m : Action ε σ α} {s s' : σ} {e : ε} (h : m s = (.error e, s')) :
    mapError f m s = (.error (f e), s') := by
  rw [mapError_apply, h]
  rfl

/-- Whatever `m` returns, it leaves a state that satisfies `I` as it found one. -/
def Keeps (I : σ → Prop) (m : Action ε σ α) : Prop := ∀ s, I s → I (m s).2

section Keeps
variable {I : σ → Prop}

theorem keeps_pure (a : α) : Keeps I (pure a : Action ε σ α) := fun _ => id

theorem keeps_throw (e : ε) : Keeps I (throw e : Action ε σ α) := fun _ => id

theorem Keeps.bind {m : Action ε σ α} (hm : Keeps I m) {f : α → Action ε σ β} (hf : ∀ a, Keeps I (f a)) :
    Keeps I (m >>= f) := by
  intro s hs
  have hfirst := hm s hs
  rw [bind_apply]
  rcases hreply : m s with ⟨e | a, s'⟩ <;> rw [hreply] at hfirst
  · exact hfirst
  · exact hf a s' hfirst

theorem Keeps.borrowing {J : τ → Prop} {enter : σ → τ} {leave : τ → σ → σ} {m : Action ε τ α}
    (hm : Keeps J m) (henter : ∀ s, I s → J (enter s)) (hleave : ∀ t s, J t → I (leave t s)) :
    Keeps I (borrowing enter leave m) :=
  fun s hs => hleave _ s (hm _ (henter s hs))

end Keeps

/-- `m` fails only with what satisfies `E`. -/
def Throws (E : ε → Prop) (m : Action ε σ α) : Prop := ∀ s s' e, m s = (.error e, s') → E e

section Throws
variable {E : ε → Prop}

theorem Throws.bind {m : Action ε σ α} (hm : Throws E m) {f : α → Action ε σ β}
    (hf : ∀ a, Throws E (f a)) : Throws E (m >>= f) := by
  intro s s' e h
  rw [bind_apply] at h
  rcases hreply : m s with ⟨e₁ | a, s₁⟩ <;> rw [hreply] at h
  · cases h
    exact hm _ _ _ hreply
  · exact hf a _ _ _ h

theorem Throws.borrowing {enter : σ → τ} {leave : τ → σ → σ} {m : Action ε τ α} (hm : Throws E m) :
    Throws E (borrowing enter leave m) := by
  intro s s' e h
  rw [borrowing_apply] at h
  exact hm _ _ _ (Prod.ext (Prod.mk.inj h).1 rfl)

theorem throws_mapError {f : ε' → ε} (hf : ∀ e, E (f e)) (m : Action ε' σ α) :
    Throws E (mapError f m) := by
  intro s s' e h
  rw [mapError_apply] at h
  rcases hreply : m s with ⟨e₁ | a, s₁⟩ <;> rw [hreply] at h <;> cases h
  exact hf e₁

end Throws

end Action

/-! ### The traits -/

/-- `read` is given the length of the buffer and returns the bytes it put there. -/
class Read (ρ : Type) where
  read : Nat → Action IoError ρ Bytes

class BufRead (ρ : Type) extends Read ρ where
  fillBuf : Action IoError ρ Bytes
  consume : Nat → ρ → ρ

/-- `write` returns how many bytes of the buffer it accepted. -/
class Write (ω : Type) where
  write : Bytes → Action IoError ω Nat
  flush : Action IoError ω Unit

class SetBlocking (ρ : Type) where
  setBlocking : Bool → Action IoError ρ Unit

/-! ### The loops -/

/-- `read_exact` at the end of the stream. -/
def failedToFill : IoError := ⟨.unexpectedEof, "failed to fill whole buffer"⟩

/-- Each turn that goes on fills at least one byte, so `turns` need not exceed the
number of bytes still to fill. -/
def readExactLoop {ρ : Type} [Read ρ] : Nat → Nat → Action IoError ρ Bytes
  | _, 0 => pure []
  | 0, _ + 1 => throw failedToFill
  | turns + 1, n + 1 => do
    let bytes ← Read.read (n + 1)
    if bytes = [] then throw failedToFill
    else
      let rest ← readExactLoop turns (n + 1 - bytes.length)
      return bytes ++ rest

def readExact {ρ : Type} [Read ρ] (n : Nat) : Action IoError ρ Bytes := readExactLoop n n

/-- `write_all` when the writer accepts nothing. -/
def failedToWrite : IoError := ⟨.writeZero, "failed to write whole buffer"⟩

def writeAllLoop {ω : Type} [Write ω] : Nat → Bytes → Action IoError ω Unit
  | _, [] => pure ()
  | 0, _ :: _ => throw failedToWrite
  | turns + 1, b :: bytes => do
    let n ← Write.write (b :: bytes)
    if n = 0 then throw failedToWrite else writeAllLoop turns ((b :: bytes).drop n)

def writeAll {ω : Type} [Write ω] (bytes : Bytes) : Action IoError ω Unit :=
  writeAllLoop bytes.length bytes

/-! ### `Take` -/

structure Take (ρ : Type) where
  inner : ρ
  limit : Nat

section Take
variable {ρ : Type}

/-- Not a call of the inner reader once the limit is reached. -/
def Take.read [Read ρ] (n : Nat) : Action IoError (Take ρ) Bytes := fun t =>
  if t.limit = 0 then (.ok [], t)
  else match Read.read (min n t.limit) t.inner with
    | (.ok bytes, inner) => (.ok bytes, ⟨inner, t.limit - bytes.length⟩)
    | (.error e, inner) => (.error e, ⟨inner, t.limit⟩)

def Take.fillBuf [BufRead ρ] : Action IoError (Take ρ) Bytes := fun t =>
  if t.limit = 0 then (.ok [], t)
  else match BufRead.fillBuf t.inner with
    | (.ok buf, inner) => (.ok (buf.take t.limit), ⟨inner, t.limit⟩)
    | (.error e, inner) => (.error e, ⟨inner, t.limit⟩)

def Take.consume [BufRead ρ] (amount : Nat) (t : Take ρ) : Take ρ :=
  ⟨BufRead.consume (min amount t.limit) t.inner, t.limit - min amount t.limit⟩

instance [Read ρ] : Read (Take ρ) := ⟨Take.read⟩

instance [BufRead ρ] : BufRead (Take ρ) where
  fillBuf := Take.fillBuf
  consume := Take.consume

instance [SetBlocking ρ] : SetBlocking (Take ρ) where
  setBlocking blocking := fun t =>
    ((SetBlocking.setBlocking blocking t.inner).1,
      ⟨(SetBlocking.setBlocking blocking t.inner).2, t.limit⟩)

/-- `(&mut reader).take(limit)` for the length of one call. -/
def taking {ε α : Type} (limit : Nat) (m : Action ε (Take ρ) α) : Action ε ρ α :=
  borrowing (fun r => ⟨r, limit⟩) (fun t _ => t.inner) m

end Take

/-! ### Discarding -/

/-- The buffer of `io::copy`. -/
def copyBuffer : Nat := 8192

/-- `io::copy` into a sink: the number of bytes read until a read returns none. -/
def copyLoop {ρ : Type} [Read ρ] : Nat → Action IoError ρ Nat
  | 0 => pure 0
  | turns + 1 => do
    let bytes ← Read.read copyBuffer
    if bytes = [] then pure 0
    else
      let more ← copyLoop turns
      return bytes.length + more

def eofDiscarding : IoError := ⟨.unexpectedEof, "EOF while discarding"⟩

/-- `Reader::discard`. -/
def discard {ρ : Type} [Read ρ] (amount : Nat) : Action IoError ρ Unit :=
  if amount = 0 then pure ()
  else do
    let discarded ← taking amount (copyLoop amount : Action IoError (Take ρ) Nat)
    if discarded = amount then pure () else throw eofDiscarding

/-! ### `BufReader` and byte slices -/

/-- `buffer` is what was read ahead and not yet consumed. -/
structure BufReader (ρ : Type) where
  inner : ρ
  buffer : Bytes
  capacity : Nat

section BufReader
variable {ρ : Type}

def BufReader.fillBuf [Read ρ] : Action IoError (BufReader ρ) Bytes := fun b =>
  if b.buffer = [] then
    match Read.read b.capacity b.inner with
    | (.ok bytes, inner) => (.ok bytes, ⟨inner, bytes, b.capacity⟩)
    | (.error e, inner) => (.error e, ⟨inner, [], b.capacity⟩)
  else (.ok b.buffer, b)

def BufReader.consume (amount : Nat) (b : BufReader ρ) : BufReader ρ :=
  {b with buffer := b.buffer.drop amount}

/-- A read at least as long as the buffer passes an empty one by. -/
def BufReader.read [Read ρ] (n : Nat) : Action IoError (BufReader ρ) Bytes := fun b =>
  if b.buffer = [] ∧ b.capacity ≤ n then
    match Read.read n b.inner with
    | (.ok bytes, inner) => (.ok bytes, ⟨inner, [], b.capacity⟩)
    | (.error e, inner) => (.error e, ⟨inner, [], b.capacity⟩)
  else match BufReader.fillBuf b with
    | (.ok buf, b) => (.ok (buf.take n), b.consume n)
    | (.error e, b) => (.error e, b)

instance [Read ρ] : BufRead (BufReader ρ) where
  read := BufReader.read
  fillBuf := BufReader.fillBuf
  consume := BufReader.consume

instance [SetBlocking ρ] : SetBlocking (BufReader ρ) where
  setBlocking blocking := fun b =>
    ((SetBlocking.setBlocking blocking b.inner).1,
      {b with inner := (SetBlocking.setBlocking blocking b.inner).2})

end BufReader

/-- A `&[u8]` read as a stream: all that is left is in one fill. -/
structure Slice where
  bytes : Bytes
  deriving DecidableEq, Repr

instance : BufRead Slice where
  read n := fun s => (.ok (s.bytes.take n), ⟨s.bytes.drop n⟩)
  fillBuf := fun s => (.ok s.bytes, s)
  consume n s := ⟨s.bytes.drop n⟩

instance : SetBlocking Slice := ⟨fun _ => pure ()⟩

/-- What a transport hands over, one segment a read at most; none of them empty. -/
structure Segments where
  segments : List Bytes
  nonempty : ∀ s ∈ segments, s ≠ []

def Segments.read (n : Nat) : Action IoError Segments Bytes := fun t =>
  match t with
  | ⟨[], h⟩ => (.ok [], ⟨[], h⟩)
  | ⟨s :: rest, h⟩ =>
    if hn : s.length ≤ n then (.ok s, ⟨rest, fun x hx => h x (List.mem_cons_of_mem s hx)⟩)
    else (.ok (s.take n), ⟨s.drop n :: rest, by
      intro x hx
      rcases List.mem_cons.mp hx with rfl | hx
      · exact fun he => hn (List.drop_eq_nil_iff.mp he)
      · exact h x (List.mem_cons_of_mem s hx)⟩)

instance : Read Segments := ⟨Segments.read⟩

instance : SetBlocking Segments := ⟨fun _ => pure ()⟩

end Protocraft.Stream
