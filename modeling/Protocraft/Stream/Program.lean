import Protocraft.Stream.Loops
import Protocraft.Stream.Source

/-! Programs that read.

What reads from a stream decides each call by the replies to the ones before:
a program is that tree of decisions. `run` makes its calls on a reader, `eval` on
the bytes themselves, and on a reader that delivers those bytes the two agree
(`Program.run_did`), in whatever pieces the bytes come. -/
namespace Protocraft.Stream

/-- `remaining` asks for what the reader knows of its own rest, a `β`. -/
inductive Program (ε β α : Type) where
  | done (result : Except ε α)
  | readExact (n : Nat) (k : Except IoError Bytes → Program ε β α)
  | discard (n : Nat) (k : Except IoError Unit → Program ε β α)
  | remaining (k : β → Program ε β α)

namespace Program
variable {ε ε' β α α' : Type}

def bind : Program ε β α → (α → Program ε β α') → Program ε β α'
  | done (.ok a), f => f a
  | done (.error e), _ => done (.error e)
  | readExact n k, f => readExact n fun reply => (k reply).bind f
  | discard n k, f => discard n fun reply => (k reply).bind f
  | remaining k, f => remaining fun b => (k b).bind f

instance : Monad (Program ε β) where
  pure a := done (.ok a)
  bind := bind

instance : MonadExceptOf ε (Program ε β) where
  throw e := done (.error e)
  tryCatch p _ := p

/-- The result as a value. -/
def attempt : Program ε β α → Program ε' β (Except ε α)
  | done r => done (.ok r)
  | readExact n k => readExact n fun reply => (k reply).attempt
  | discard n k => discard n fun reply => (k reply).attempt
  | remaining k => remaining fun b => (k b).attempt

/-! ### On a reader -/

section Run
variable {ρ : Type} [Read ρ]

def run (rem : ρ → β) : Program ε β α → Action ε ρ α
  | done r => fun s => (r, s)
  | readExact n k => fun s => run rem (k (Stream.readExact n s).1) (Stream.readExact n s).2
  | discard n k => fun s => run rem (k (Stream.discard n s).1) (Stream.discard n s).2
  | remaining k => fun s => run rem (k (rem s)) s

theorem run_bind (rem : ρ → β) (p : Program ε β α) (f : α → Program ε β α') (s : ρ) :
    (p.bind f).run rem s = match p.run rem s with
      | (.ok a, s') => (f a).run rem s'
      | (.error e, s') => (.error e, s') := by
  induction p generalizing s with
  | done r => cases r <;> rfl
  | readExact n k ih => exact ih _ _
  | discard n k ih => exact ih _ _
  | remaining k ih => exact ih _ _

theorem run_bind_ok {rem : ρ → β} {p : Program ε β α} {f : α → Program ε β α'} {s s' : ρ} {a : α}
    (h : p.run rem s = (.ok a, s')) : (p >>= f).run rem s = (f a).run rem s' := by
  show (p.bind f).run rem s = _
  rw [run_bind, h]

theorem run_bind_error {rem : ρ → β} {p : Program ε β α} {f : α → Program ε β α'} {s s' : ρ} {e : ε}
    (h : p.run rem s = (.error e, s')) : (p >>= f).run rem s = (.error e, s') := by
  show (p.bind f).run rem s = _
  rw [run_bind, h]

theorem run_attempt (rem : ρ → β) (p : Program ε β α) (s : ρ) :
    (p.attempt : Program ε' β _).run rem s = (.ok (p.run rem s).1, (p.run rem s).2) := by
  induction p generalizing s with
  | done r => rfl
  | readExact n k ih => exact ih _ _
  | discard n k ih => exact ih _ _
  | remaining k ih => exact ih _ _

/-- On a reader that is not asked for its rest. -/
def onReader (p : Program ε Unit α) : Action ε ρ α := p.run fun _ => ()

end Run

/-! ### On bytes -/

def eval (rem : Bytes → β) : Program ε β α → Bytes → Except ε α × Bytes
  | done r, c => (r, c)
  | readExact n k, c => eval rem (k (exactly n c).1) (exactly n c).2
  | discard n k, c => eval rem (k (skipped n c).1) (skipped n c).2
  | remaining k, c => eval rem (k (rem c)) c

def onBytes (p : Program ε Unit α) (c : Bytes) : Except ε α × Bytes := p.eval (fun _ => ()) c

theorem eval_bind (rem : Bytes → β) (p : Program ε β α) (f : α → Program ε β α') (c : Bytes) :
    (p.bind f).eval rem c = match p.eval rem c with
      | (.ok a, c') => (f a).eval rem c'
      | (.error e, c') => (.error e, c') := by
  induction p generalizing c with
  | done r => cases r <;> rfl
  | readExact n k ih => exact ih _ _
  | discard n k ih => exact ih _ _
  | remaining k ih => exact ih _ _

theorem eval_bind_ok {rem : Bytes → β} {p : Program ε β α} {f : α → Program ε β α'} {c c' : Bytes}
    {a : α} (h : p.eval rem c = (.ok a, c')) : (p >>= f).eval rem c = (f a).eval rem c' := by
  show (p.bind f).eval rem c = _
  rw [eval_bind, h]

theorem eval_bind_error {rem : Bytes → β} {p : Program ε β α} {f : α → Program ε β α'}
    {c c' : Bytes} {e : ε} (h : p.eval rem c = (.error e, c')) :
    (p >>= f).eval rem c = (.error e, c') := by
  show (p.bind f).eval rem c = _
  rw [eval_bind, h]

theorem eval_attempt (rem : Bytes → β) (p : Program ε β α) (c : Bytes) :
    (p.attempt : Program ε' β _).eval rem c = (.ok (p.eval rem c).1, (p.eval rem c).2) := by
  induction p generalizing c with
  | done r => rfl
  | readExact n k ih => exact ih _ _
  | discard n k ih => exact ih _ _
  | remaining k ih => exact ih _ _

/-- **A program does on a reader what it does on the bytes**, whatever the pieces,
unless the reader stalled. -/
theorem run_did {ρ : Type} [Read ρ] {R : ρ → Bytes → Prop} {Stalled : ρ → Prop}
    (h : Delivers R Stalled) {rem : ρ → β} {remb : Bytes → β}
    (hrem : ∀ {r c}, R r c → rem r = remb c) (p : Program ε β α) {r : ρ} {c : Bytes} (hr : R r c) :
    Did R Stalled r (p.run rem r) (p.eval remb c) := by
  induction p generalizing r c with
  | done result => exact ⟨⟨c, hr, .inr rfl⟩, id⟩
  | readExact n k ih =>
    obtain ⟨⟨c', hr', hdid⟩, hstays⟩ := readExact_did h n hr
    obtain ⟨⟨c'', hleft, hrest⟩, hstays'⟩ := ih (Stream.readExact n r).1 hr'
    refine ⟨⟨c'', hleft, ?_⟩, hstays' ∘ hstays⟩
    rcases hdid with hs | hd
    · exact .inl (hstays' hs)
    · rw [eval, ← hd]
      exact hrest
  | discard n k ih =>
    obtain ⟨⟨c', hr', hdid⟩, hstays⟩ := discard_did h n hr
    obtain ⟨⟨c'', hleft, hrest⟩, hstays'⟩ := ih (Stream.discard n r).1 hr'
    refine ⟨⟨c'', hleft, ?_⟩, hstays' ∘ hstays⟩
    rcases hdid with hs | hd
    · exact .inl (hstays' hs)
    · rw [eval, ← hd]
      exact hrest
  | remaining k ih =>
    have hstep := ih (rem r) hr
    rw [run, eval, ← hrem hr]
    exact hstep

/-- On a reader that never stalls. -/
theorem run_eq {ρ : Type} [Read ρ] {R : ρ → Bytes → Prop} (h : Delivers R Never) {rem : ρ → β}
    {remb : Bytes → β} (hrem : ∀ {r c}, R r c → rem r = remb c) {p : Program ε β α} {r : ρ}
    {c rest : Bytes} {result : Except ε α} (hr : R r c) (heval : p.eval remb c = (result, rest)) :
    ∃ r', p.run rem r = (result, r') ∧ R r' rest := by
  obtain ⟨hreply, hleft⟩ := (run_did h hrem p hr).exact id
  rw [heval] at hreply hleft
  exact ⟨_, Prod.ext hreply rfl, hleft⟩

theorem onReader_eq {ρ : Type} [Read ρ] {R : ρ → Bytes → Prop} (h : Delivers R Never)
    {p : Program ε Unit α} {r : ρ} {c rest : Bytes} {result : Except ε α} (hr : R r c)
    (heval : p.onBytes c = (result, rest)) : ∃ r', p.onReader r = (result, r') ∧ R r' rest :=
  run_eq h (fun _ => rfl) hr heval

/-- What every read keeps, every program does. -/
theorem run_keeps {ρ : Type} [Read ρ] {I : ρ → Prop} (h : ∀ n, Keeps I (Read.read n)) (rem : ρ → β)
    (p : Program ε β α) : Keeps I (p.run rem) := by
  intro r hr
  induction p generalizing r with
  | done result => exact hr
  | readExact n k ih => exact ih _ _ (readExact_keeps h n r hr)
  | discard n k ih => exact ih _ _ (discard_keeps h n r hr)
  | remaining k ih => exact ih _ _ hr

/-- On a wrapped reader a program does what it does on the reader. -/
theorem run_passes {ρ ρ' : Type} [Read ρ] [Read ρ'] {f : ρ → ρ'} (h : Passes f) {rem : ρ → β}
    {rem' : ρ' → β} (hrem : ∀ r, rem' (f r) = rem r) (p : Program ε β α) (r : ρ) :
    p.run rem' (f r) = ((p.run rem r).1, f (p.run rem r).2) := by
  induction p generalizing r with
  | done result => rfl
  | readExact n k ih =>
    simp only [run, h.readExact]
    exact ih _ _
  | discard n k ih =>
    simp only [run, h.discard]
    exact ih _ _
  | remaining k ih =>
    simp only [run, hrem]
    exact ih _ _

theorem onReader_passes {ρ ρ' : Type} [Read ρ] [Read ρ'] {f : ρ → ρ'} (h : Passes f)
    (p : Program ε Unit α) (r : ρ) : p.onReader (f r) = ((p.onReader r).1, f (p.onReader r).2) :=
  run_passes h (fun _ => rfl) p r

/-! ### Strict programs -/

/-- A program that fails as soon as one of its calls does. -/
inductive Strict : Program ε β α → Prop
  | done (r : Except ε α) : Strict (done r)
  | readExact {n : Nat} {k : Except IoError Bytes → Program ε β α}
      (failed : ∀ e, ∃ e', k (.error e) = .done (.error e')) (read : ∀ bytes, Strict (k (.ok bytes))) :
      Strict (readExact n k)
  | discard {n : Nat} {k : Except IoError Unit → Program ε β α}
      (failed : ∀ e, ∃ e', k (.error e) = .done (.error e')) (discarded : Strict (k (.ok ()))) :
      Strict (discard n k)
  | remaining {k : β → Program ε β α} (asked : ∀ b, Strict (k b)) : Strict (remaining k)

theorem Strict.bind {p : Program ε β α} (hp : Strict p) {f : α → Program ε β α'}
    (hf : ∀ a, Strict (f a)) : Strict (p.bind f) := by
  induction hp with
  | done r =>
    cases r with
    | ok a => exact hf a
    | error e => exact .done _
  | readExact failed _ ih =>
    refine .readExact (fun e => ?_) ih
    obtain ⟨e', he⟩ := failed e
    exact ⟨e', by rw [he]; rfl⟩
  | discard failed _ ih =>
    refine .discard (fun e => ?_) ih
    obtain ⟨e', he⟩ := failed e
    exact ⟨e', by rw [he]; rfl⟩
  | remaining _ ih => exact .remaining ih

/-- One that succeeds has not stalled its reader. -/
theorem Strict.run_ok {ρ : Type} [Read ρ] {R : ρ → Bytes → Prop} {Stalled : ρ → Prop}
    (h : Delivers R Stalled) {rem : ρ → β} {p : Program ε β α} (hp : Strict p) {r : ρ} {c : Bytes}
    (hr : R r c) (hs : ¬ Stalled r) {a : α} (hok : (p.run rem r).1 = .ok a) :
    ¬ Stalled (p.run rem r).2 := by
  induction hp generalizing r c with
  | done => exact hs
  | @readExact n k failed _ ih =>
    simp only [run] at hok ⊢
    rcases hreply : (Stream.readExact n r).1 with e | bytes
    · obtain ⟨e', he⟩ := failed e
      rw [hreply, he] at hok
      cases hok
    · have hgoing : ¬ Stalled (Stream.readExact n r).2 := by
        intro hst
        rcases readExact_stalled h hr hst with hst' | ⟨hfailed, -⟩
        · exact hs hst'
        · rw [hreply] at hfailed
          cases hfailed
      rw [hreply] at hok
      exact ih bytes ((readExact_did h n hr).exact hgoing).2 hgoing hok
  | @discard n k failed _ ih =>
    simp only [run] at hok ⊢
    rcases hreply : (Stream.discard n r).1 with e | bytes
    · obtain ⟨e', he⟩ := failed e
      rw [hreply, he] at hok
      cases hok
    · have hgoing : ¬ Stalled (Stream.discard n r).2 := by
        intro hst
        rcases discard_stalled h hr hst with hst' | ⟨hfailed, -⟩
        · exact hs hst'
        · rw [hreply] at hfailed
          cases hfailed
      rw [hreply] at hok
      exact ih ((discard_did h n hr).exact hgoing).2 hgoing hok
  | remaining _ ih => exact ih _ hr hs hok

/-! ### Failures -/

/-- Whatever its calls reply, `p` fails only with what satisfies `E`. -/
def FailsWith (E : ε → Prop) : Program ε β α → Prop
  | done (.ok _) => True
  | done (.error e) => E e
  | readExact _ k => ∀ reply, (k reply).FailsWith E
  | discard _ k => ∀ reply, (k reply).FailsWith E
  | remaining k => ∀ b, (k b).FailsWith E

theorem FailsWith.bind {E : ε → Prop} {p : Program ε β α} (hp : p.FailsWith E)
    {f : α → Program ε β α'} (hf : ∀ a, (f a).FailsWith E) : (p.bind f).FailsWith E := by
  induction p with
  | done r =>
    cases r with
    | ok a => exact hf a
    | error e => exact hp
  | readExact n k ih => exact fun reply => ih reply (hp reply)
  | discard n k ih => exact fun reply => ih reply (hp reply)
  | remaining k ih => exact fun b => ih b (hp b)

theorem FailsWith.run {ρ : Type} [Read ρ] {rem : ρ → β} {E : ε → Prop} {p : Program ε β α}
    (hp : p.FailsWith E) {r : ρ} {e : ε} (hfailed : (p.run rem r).1 = .error e) : E e := by
  induction p generalizing r with
  | done result =>
    obtain rfl : result = .error e := hfailed
    exact hp
  | readExact n k ih => exact ih _ (hp _) hfailed
  | discard n k ih => exact ih _ (hp _) hfailed
  | remaining k ih => exact ih _ (hp _) hfailed

/-! ### Observed

What a program gets to see of a reader that knows how many bytes it has left: the
replies, and how many are left after each. -/

inductive Observation where
  | read (reply : Except IoError Bytes) (left : Nat)
  | discarded (reply : Except IoError Unit) (left : Nat)
  deriving DecidableEq

def noting (o : Observation) (p : Program ε Nat (List Observation × α)) :
    Program ε Nat (List Observation × α) :=
  p.bind fun (log, a) => done (.ok (o :: log, a))

/-- The program, with all it observes. -/
def observed : Program ε Nat α → Program ε' Nat (List Observation × Except ε α)
  | done r => done (.ok ([], r))
  | readExact n k => readExact n fun reply => remaining fun left =>
      noting (.read reply left) (k reply).observed
  | discard n k => discard n fun reply => remaining fun left =>
      noting (.discarded reply left) (k reply).observed
  | remaining k => remaining fun left => (k left).observed

theorem noting_run {ρ : Type} [Read ρ] (rem : ρ → Nat) (o : Observation)
    (p : Program ε Nat (List Observation × α)) (r : ρ) : (noting o p).run rem r =
      ((p.run rem r).1.map fun (log, a) => (o :: log, a), (p.run rem r).2) := by
  rw [noting, run_bind]
  rcases p.run rem r with ⟨e | ⟨log, a⟩, r'⟩ <;> rfl

theorem noting_eval (rem : Bytes → Nat) (o : Observation)
    (p : Program ε Nat (List Observation × α)) (c : Bytes) : (noting o p).eval rem c =
      ((p.eval rem c).1.map fun (log, a) => (o :: log, a), (p.eval rem c).2) := by
  rw [noting, eval_bind]
  rcases p.eval rem c with ⟨e | ⟨log, a⟩, c'⟩ <;> rfl

theorem observed_eval (rem : Bytes → Nat) (p : Program ε Nat α) (c : Bytes) : ∃ log,
    (p.observed : Program ε' Nat _).eval rem c = (.ok (log, (p.eval rem c).1), (p.eval rem c).2) := by
  induction p generalizing c with
  | done r => exact ⟨[], rfl⟩
  | readExact n k ih =>
    obtain ⟨log, hrest⟩ := ih (exactly n c).1 (exactly n c).2
    exact ⟨_, by simp only [observed, eval, noting_eval, hrest]; rfl⟩
  | discard n k ih =>
    obtain ⟨log, hrest⟩ := ih (skipped n c).1 (skipped n c).2
    exact ⟨_, by simp only [observed, eval, noting_eval, hrest]; rfl⟩
  | remaining k ih => exact ih _ _

theorem observed_eval_ok (rem : Bytes → Nat) (p : Program ε Nat α) (c : Bytes) :
    ∃ log r, ((p.observed : Program ε' Nat _).eval rem c).1 = .ok (log, r) := by
  obtain ⟨log, heval⟩ := @observed_eval _ ε' _ rem p c
  exact ⟨log, _, congrArg Prod.fst heval⟩

/-- Equal logs begin with the same observation and go on the same. -/
theorem noted_eq {o o' : Observation} {x y : Except ε (List Observation × α)} {log : List Observation}
    {a : α} (hy : y = .ok (log, a))
    (h : (x.map fun (log, a) => (o :: log, a)) = y.map fun (log, a) => (o' :: log, a)) :
    o = o' ∧ x = y := by
  subst hy
  rcases x with e | ⟨log', a'⟩
  · cases h
  · cases h
    exact ⟨rfl, rfl⟩

/-- **A program that observes what it would on the bytes has not stalled its reader.** -/
theorem observed_exact {ρ : Type} [Read ρ] {R : ρ → Bytes → Prop} {Stalled : ρ → Prop}
    (h : Delivers R Stalled) {rem : ρ → Nat} (hrem : ∀ {r c}, R r c → rem r = c.length)
    (p : Program ε Nat α) {r : ρ} {c : Bytes} (hr : R r c) (hs : ¬ Stalled r)
    (heq : ((p.observed : Program ε' Nat _).run rem r).1 = (p.observed.eval List.length c).1) :
    ¬ Stalled ((p.observed : Program ε' Nat _).run rem r).2 := by
  induction p generalizing r c with
  | done result => exact hs
  | readExact n k ih =>
    obtain ⟨log, a, hok⟩ :=
      @observed_eval_ok ε ε' α List.length (k (exactly n c).1) (exactly n c).2
    simp only [observed, run, eval, noting_run, noting_eval] at heq ⊢
    obtain ⟨hobserved, hrest⟩ := noted_eq hok heq
    injection hobserved with hreply hleft
    have hgoing : ¬ Stalled (Stream.readExact n r).2 := by
      intro hst
      rcases readExact_stalled h hr hst with hst' | ⟨hfailed, c', hc', hr'⟩
      · exact hs hst'
      · rw [hfailed] at hreply
        rw [hrem hr', exactly_failed hreply.symm] at hleft
        exact hc' (List.length_eq_zero_iff.mp hleft)
    obtain ⟨-, hr'⟩ := (readExact_did h n hr).exact hgoing
    rw [← hreply] at hrest
    exact ih _ hr' hgoing hrest
  | discard n k ih =>
    obtain ⟨log, a, hok⟩ :=
      @observed_eval_ok ε ε' α List.length (k (skipped n c).1) (skipped n c).2
    simp only [observed, run, eval, noting_run, noting_eval] at heq ⊢
    obtain ⟨hobserved, hrest⟩ := noted_eq hok heq
    injection hobserved with hreply hleft
    have hgoing : ¬ Stalled (Stream.discard n r).2 := by
      intro hst
      rcases discard_stalled h hr hst with hst' | ⟨hfailed, c', hc', hr'⟩
      · exact hs hst'
      · rw [hfailed] at hreply
        rw [hrem hr', skipped_failed hreply.symm] at hleft
        exact hc' (List.length_eq_zero_iff.mp hleft)
    obtain ⟨-, hr'⟩ := (discard_did h n hr).exact hgoing
    rw [← hreply] at hrest
    exact ih _ hr' hgoing hrest
  | remaining k ih =>
    simp only [observed, run, eval] at heq ⊢
    rw [← hrem hr] at heq
    exact ih _ hr hs heq

end Program

end Protocraft.Stream
