import Protocraft.Stream.Io

/-! What the loops of a reader keep, count and pass on.

`readExact` and `discard` make reads and nothing else, so what holds of every single
read holds of them: what it keeps they keep, what it takes off a meter they take off,
and a reader that passes its reads on to another passes them on too. -/
namespace Protocraft.Stream

/-! ### What every call keeps -/

section Keeps
variable {ρ : Type} [Read ρ] {I : ρ → Prop}

theorem readExactLoop_keeps (h : ∀ n, Keeps I (Read.read n)) (turns n : Nat) :
    Keeps I (readExactLoop turns n) := by
  induction turns generalizing n with
  | zero =>
    cases n with
    | zero => exact keeps_pure _
    | succ n => exact keeps_throw _
  | succ turns ih =>
    cases n with
    | zero => exact keeps_pure _
    | succ n =>
      refine (h (n + 1)).bind fun bytes => ?_
      split
      · exact keeps_throw _
      · exact (ih _).bind fun _ => keeps_pure _

theorem readExact_keeps (h : ∀ n, Keeps I (Read.read n)) (n : Nat) : Keeps I (readExact n) :=
  readExactLoop_keeps h n n

theorem copyLoop_keeps (h : ∀ n, Keeps I (Read.read n)) (turns : Nat) : Keeps I (copyLoop turns) := by
  induction turns with
  | zero => exact keeps_pure _
  | succ turns ih =>
    refine (h copyBuffer).bind fun bytes => ?_
    split
    · exact keeps_pure _
    · exact ih.bind fun _ => keeps_pure _

theorem Take.read_keeps (h : ∀ n, Keeps I (Read.read n)) (n : Nat) :
    Keeps (fun t : Take ρ => I t.inner) (Read.read n) := by
  intro t ht
  have hread := h (min n t.limit) t.inner ht
  show I (Take.read n t).2.inner
  unfold Take.read
  split
  · exact ht
  · rcases hreply : Read.read (min n t.limit) t.inner with ⟨e | bytes, r⟩ <;> rw [hreply] at hread <;>
      exact hread

theorem discard_keeps (h : ∀ n, Keeps I (Read.read n)) (n : Nat) : Keeps I (discard n) := by
  unfold discard
  split
  · exact keeps_pure _
  · refine Keeps.bind ?_ fun k => ?_
    · exact (copyLoop_keeps (Take.read_keeps h) n).borrowing (fun _ => id) fun _ _ => id
    · split
      · exact keeps_pure _
      · exact keeps_throw _

end Keeps

/-- Kept by every call of a buffered reader. -/
structure Kept {ρ : Type} [BufRead ρ] (I : ρ → Prop) : Prop where
  read : ∀ n, Keeps I (Read.read n)
  fill : Keeps I (BufRead.fillBuf : Action IoError ρ Bytes)
  consume : ∀ {r} k, I r → I (BufRead.consume k r)

theorem Kept.take {ρ : Type} [BufRead ρ] {I : ρ → Prop} (h : Kept I) :
    Kept (fun t : Take ρ => I t.inner) where
  read := Take.read_keeps h.read
  fill := by
    intro t ht
    have hfill := h.fill t.inner ht
    show I (Take.fillBuf t).2.inner
    unfold Take.fillBuf
    split
    · exact ht
    · rcases hreply : BufRead.fillBuf t.inner with ⟨e | buf, r⟩ <;> rw [hreply] at hfill <;> exact hfill
  consume k ht := h.consume _ ht

/-! ### Metered readers -/

section Metered
variable {ρ : Type} [Read ρ] {left : ρ → Nat}

/-- `left r` is what reader `r` may still hand over, and each read takes its bytes off. -/
def Metered (left : ρ → Nat) : Prop :=
  ∀ {n r bs r'}, Read.read n r = (.ok bs, r') → left r' + bs.length = left r

theorem Take.metered
    (h : ∀ {n : Nat} {r r' : ρ} {bs : Bytes}, Read.read n r = (.ok bs, r') → bs.length ≤ n) :
    Metered (Take.limit : Take ρ → Nat) := by
  intro n t bs t' hread
  obtain ⟨r, limit⟩ := t
  change Take.read n ⟨r, limit⟩ = _ at hread
  unfold Take.read at hread
  by_cases hlimit : limit = 0
  · rw [if_pos hlimit] at hread
    cases hread
    rfl
  · rw [if_neg hlimit] at hread
    rcases hinner : Read.read (min n limit) r with ⟨e | bytes, r'⟩ <;>
      rw [hinner] at hread <;> cases hread
    have := h hinner
    dsimp only
    omega

theorem Metered.copyLoop (h : Metered left) {turns k : Nat} {t t' : Take ρ}
    (hcopy : copyLoop turns t = (.ok k, t')) : left t'.inner + k = left t.inner := by
  induction turns generalizing k t with
  | zero =>
    cases hcopy
    rfl
  | succ turns ih =>
    obtain ⟨bs, t₁, hread, hrest⟩ := ok_of_bind hcopy
    have hfirst : left t₁.inner + bs.length = left t.inner := by
      change Take.read copyBuffer t = _ at hread
      unfold Take.read at hread
      split at hread
      · cases hread
        rfl
      · rcases hinner : Read.read (min copyBuffer t.limit) t.inner with ⟨e | bytes, r'⟩ <;>
          rw [hinner] at hread <;> cases hread
        exact h hinner
    by_cases hbs : bs = []
    · rw [if_pos hbs] at hrest
      cases hrest
      rw [hbs] at hfirst
      exact hfirst
    · rw [if_neg hbs] at hrest
      obtain ⟨more, t₂, hmore, hdone⟩ := ok_of_bind hrest
      cases hdone
      have := ih hmore
      omega

/-- What was discarded is off the meter. -/
theorem Metered.discard (h : Metered left) {amount : Nat} {r r' : ρ}
    (hdiscard : discard amount r = (.ok (), r')) : left r' + amount = left r := by
  unfold Stream.discard at hdiscard
  by_cases hamount : amount = 0
  · rw [if_pos hamount] at hdiscard
    cases hdiscard
    rw [hamount, Nat.add_zero]
  · rw [if_neg hamount] at hdiscard
    obtain ⟨k, r₁, htaking, hdone⟩ := ok_of_bind hdiscard
    have hcopy : Stream.copyLoop amount (⟨r, amount⟩ : Take ρ) =
        (.ok k, (Stream.copyLoop amount (⟨r, amount⟩ : Take ρ)).2) := by
      have := congrArg Prod.fst htaking
      exact Prod.ext this rfl
    have hsnd : (Stream.copyLoop amount (⟨r, amount⟩ : Take ρ)).2.inner = r₁ := congrArg Prod.snd htaking
    have hmeter := h.copyLoop hcopy
    rw [hsnd] at hmeter
    by_cases hk : k = amount
    · rw [if_pos hk] at hdone
      cases hdone
      rw [← hk]
      exact hmeter
    · rw [if_neg hk] at hdone
      cases hdone

end Metered

/-! ### Wrapping -/

section Passes
variable {ρ ρ' : Type} [Read ρ] [Read ρ'] {f : ρ → ρ'}

/-- `f` wraps a reader and passes its reads on. -/
def Passes (f : ρ → ρ') : Prop :=
  ∀ n r, Read.read n (f r) = ((Read.read n r).1, f (Read.read n r).2)

theorem Passes.readExactLoop (h : Passes f) (turns n : Nat) (r : ρ) :
    Stream.readExactLoop turns n (f r) =
      ((Stream.readExactLoop turns n r).1, f (Stream.readExactLoop turns n r).2) := by
  induction turns generalizing n r with
  | zero => cases n <;> rfl
  | succ turns ih =>
    cases n with
    | zero => rfl
    | succ n =>
      unfold Stream.readExactLoop
      rw [bind_apply, bind_apply, h]
      rcases Read.read (n + 1) r with ⟨e | bs, r'⟩
      · rfl
      · by_cases hbs : bs = []
        · simp [hbs]
        · simp only [if_neg hbs]
          rw [bind_apply, bind_apply, ih]
          rcases Stream.readExactLoop turns (n + 1 - bs.length) r' with ⟨e | rest, r''⟩ <;> rfl

theorem Passes.readExact (h : Passes f) (n : Nat) (r : ρ) :
    Stream.readExact n (f r) = ((Stream.readExact n r).1, f (Stream.readExact n r).2) :=
  h.readExactLoop n n r

theorem Passes.copyLoop (h : Passes f) (turns : Nat) (r : ρ) :
    Stream.copyLoop turns (f r) = ((Stream.copyLoop turns r).1, f (Stream.copyLoop turns r).2) := by
  induction turns generalizing r with
  | zero => rfl
  | succ turns ih =>
    unfold Stream.copyLoop
    rw [bind_apply, bind_apply, h]
    rcases Read.read copyBuffer r with ⟨e | bs, r'⟩
    · rfl
    · by_cases hbs : bs = []
      · simp [hbs]
      · simp only [if_neg hbs]
        rw [bind_apply, bind_apply, ih]
        rcases Stream.copyLoop turns r' with ⟨e | k, r''⟩ <;> rfl

theorem Passes.take (h : Passes f) : Passes fun t : Take ρ => (⟨f t.inner, t.limit⟩ : Take ρ') := by
  intro n t
  obtain ⟨r, limit⟩ := t
  show Take.read n ⟨f r, limit⟩ =
    ((Take.read n ⟨r, limit⟩).1, ⟨f (Take.read n ⟨r, limit⟩).2.inner, (Take.read n ⟨r, limit⟩).2.limit⟩)
  unfold Take.read
  by_cases hlimit : limit = 0
  · simp only [hlimit, if_true]
  · simp only [hlimit, if_false]
    rw [h]
    rcases Read.read (min n limit) r with ⟨e | bs, r'⟩ <;> rfl

theorem Passes.discard (h : Passes f) (n : Nat) (r : ρ) :
    Stream.discard n (f r) = ((Stream.discard n r).1, f (Stream.discard n r).2) := by
  have hcopy := h.take.copyLoop n ⟨r, n⟩
  unfold Stream.discard
  split
  · rfl
  · rw [bind_apply, bind_apply]
    simp only [taking, borrowing_apply, hcopy]
    rcases Stream.copyLoop n (⟨r, n⟩ : Take ρ) with ⟨e | k, t⟩
    · rfl
    · dsimp only
      split <;> rfl

end Passes

end Protocraft.Stream
