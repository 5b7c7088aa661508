import Protocraft.Stream.Poll
import Protocraft.Stream.Program

/-! Polled readers that stand in for blocking ones.

A polled reader follows a blocking one when each of its polls either puts the read off, which it
cannot do for ever, or does what the read would have done (`Follows`). Awaiting a call polls until
it is through, so a call that is made of polls comes to what its blocking counterpart comes to
(`Matches`), and so does every program that runs on the two (`Program.asyncRun_matches`). What
differs is how they word the end of the stream. -/
namespace Protocraft.Stream

@[simp] theorem ReadBuf.put_nil (buf : ReadBuf) : buf.put [] = buf := by
  simp [ReadBuf.put]

/-! ### The adapters, polled -/

section Take
variable {α : Type}

/-- Reads no more than the limit, and polls nothing once that is zero. -/
def Take.pollRead [AsyncRead α] (buf : ReadBuf) (t : Take α) : PollIo Unit × ReadBuf × Take α :=
  if t.limit = 0 then (.ready (.ok ()), buf, t)
  else match AsyncRead.pollRead ⟨[], min buf.room t.limit⟩ t.inner with
    | (.ready (.ok ()), b, inner) =>
      (.ready (.ok ()), buf.put b.filled, ⟨inner, t.limit - b.filled.length⟩)
    | (reply, _, inner) => (reply, buf, ⟨inner, t.limit⟩)

def Take.pollFillBuf [AsyncBufRead α] (t : Take α) : PollIo Bytes × Take α :=
  if t.limit = 0 then (.ready (.ok []), t)
  else match AsyncBufRead.pollFillBuf t.inner with
    | (.ready (.ok buf), inner) => (.ready (.ok (buf.take t.limit)), ⟨inner, t.limit⟩)
    | (reply, inner) => (reply, ⟨inner, t.limit⟩)

instance [AsyncRead α] : AsyncRead (Take α) := ⟨Take.pollRead⟩

instance [AsyncBufRead α] : AsyncBufRead (Take α) where
  pollFillBuf := Take.pollFillBuf
  consume amount t :=
    ⟨AsyncBufRead.consume (min amount t.limit) t.inner, t.limit - min amount t.limit⟩

end Take

section BufReader
variable {α : Type} [AsyncRead α]

def BufReader.pollFillBuf (b : BufReader α) : PollIo Bytes × BufReader α :=
  if b.buffer = [] then
    match AsyncRead.pollRead ⟨[], b.capacity⟩ b.inner with
    | (.ready (.ok ()), buf, inner) => (.ready (.ok buf.filled), ⟨inner, buf.filled, b.capacity⟩)
    | (.ready (.error e), _, inner) => (.ready (.error e), ⟨inner, [], b.capacity⟩)
    | (.pending, _, inner) => (.pending, ⟨inner, [], b.capacity⟩)
  else (.ready (.ok b.buffer), b)

/-- A read of the whole capacity or more goes past an empty buffer. -/
def BufReader.pollRead (buf : ReadBuf) (b : BufReader α) : PollIo Unit × ReadBuf × BufReader α :=
  if b.buffer = [] ∧ b.capacity ≤ buf.room then
    match AsyncRead.pollRead buf b.inner with
    | (reply, buf, inner) => (reply, buf, ⟨inner, [], b.capacity⟩)
  else match BufReader.pollFillBuf b with
    | (.ready (.ok rem), b) => (.ready (.ok ()), buf.put (rem.take buf.room), b.consume buf.room)
    | (.ready (.error e), b) => (.ready (.error e), buf, b)
    | (.pending, b) => (.pending, buf, b)

instance : AsyncRead (BufReader α) := ⟨BufReader.pollRead⟩

instance : AsyncBufRead (BufReader α) where
  pollFillBuf := BufReader.pollFillBuf
  consume := BufReader.consume

end BufReader

/-! ### The calls -/

section Calls
variable {α : Type} [AsyncRead α]

/-- A turn of `read_exact`, which ends the stream with the error `early`. -/
def asyncReadExactTurn (early : IoError) (t : ReadBuf × α) :
    Turn (ReadBuf × α) (Except (Stop IoError) Bytes) :=
  let (buf, a) := t
  if buf.room = 0 then .exit (.ok buf.filled) t
  else match AsyncRead.pollRead buf a with
    | (.pending, buf', a') => .again (buf', a')
    | (.ready (.error e), buf', a') => .exit (.error (.error e)) (buf', a')
    | (.ready (.ok ()), buf', a') =>
      if buf'.room = buf.room then .exit (.error (.error early)) (buf', a') else .again (buf', a')

def asyncReadExact (early : IoError) (turns n : Nat) : Action (Stop IoError) α Bytes :=
  borrowing (fun a => (⟨[], n⟩, a)) (fun t _ => t.2) (Turn.run (asyncReadExactTurn early) turns)

/-- A turn of `copy` into a sink, which takes whatever it is given. -/
def asyncCopyTurn (t : Nat × α) : Turn (Nat × α) (Except (Stop IoError) Nat) :=
  let (amount, a) := t
  match AsyncRead.pollRead ⟨[], copyBuffer⟩ a with
  | (.pending, _, a') => .again (amount, a')
  | (.ready (.error e), _, a') => .exit (.error (.error e)) (amount, a')
  | (.ready (.ok ()), buf, a') =>
    if buf.filled = [] then .exit (.ok amount) (amount, a') else .again (amount + buf.filled.length, a')

def asyncDiscard (turns amount : Nat) : Action (Stop IoError) α Unit :=
  if amount = 0 then pure ()
  else do
    let discarded ← borrowing (fun a => (0, Take.mk a amount)) (fun t _ => t.2.inner)
      (Turn.run asyncCopyTurn turns)
    if discarded = amount then pure () else throw (.error eofDiscarding)

end Calls

/-! ### Following a blocking reader -/

/-- An error in the words of the polled reader, whose streams end with `early`. -/
def reworded (early e : IoError) : IoError := if e = failedToFill then early else e

@[simp] theorem reworded_failedToFill (early : IoError) : reworded early failedToFill = early :=
  if_pos rfl

@[simp] theorem reworded_eofDiscarding (early : IoError) :
    reworded early eofDiscarding = eofDiscarding :=
  if_neg (by decide)

@[simp] theorem reworded_other (early : IoError) (message : String) :
    reworded early ⟨.other, message⟩ = ⟨.other, message⟩ := by
  simp [reworded, failedToFill]

section Follows
variable {α ρ : Type}

/-- Polled until it no longer puts the read off, the reader does what the blocking one's read did,
which came to `reply`. -/
inductive Answers [AsyncRead α] (early : IoError) (A : α → ρ → Prop) (buf : ReadBuf)
    (reply : Except IoError Bytes × ρ) : α → Prop
  | later {a a' : α} (hpoll : AsyncRead.pollRead buf a = (.pending, buf, a'))
      (hlater : Answers early A buf reply a') : Answers early A buf reply a
  | read {bytes : Bytes} {a a' : α} {r' : ρ}
      (hpoll : AsyncRead.pollRead buf a = (.ready (.ok ()), buf.put bytes, a'))
      (hread : reply = (.ok bytes, r')) (hr : A a' r') : Answers early A buf reply a
  | failed {e : IoError} {a a' : α} {r' : ρ}
      (hpoll : AsyncRead.pollRead buf a = (.ready (.error (reworded early e)), buf, a'))
      (hread : reply = (.error e, r')) (hr : A a' r') : Answers early A buf reply a

/-- `A a r`: between two reads, the polled reader `a` stands where the blocking reader `r` does. -/
def Follows [AsyncRead α] [Read ρ] (early : IoError) (A : α → ρ → Prop) : Prop :=
  ∀ ⦃a r⦄ (buf : ReadBuf), A a r → Answers early A buf (Read.read buf.room r) a

/-- What passes the polls on answers where what it wraps does. -/
theorem Answers.passes {β τ : Type} [AsyncRead α] [AsyncRead β] {early : IoError} {A : α → ρ → Prop}
    {B : β → τ → Prop} {buf : ReadBuf} {reply : Except IoError Bytes × ρ} {a : α}
    (h : Answers early A buf reply a) (f : α → β) (g : ρ → τ)
    (hpasses : ∀ buf a, AsyncRead.pollRead buf (f a) =
      ((AsyncRead.pollRead buf a).1, (AsyncRead.pollRead buf a).2.1, f (AsyncRead.pollRead buf a).2.2))
    (hr : ∀ a r, A a r → B (f a) (g r)) : Answers early B buf (reply.1, g reply.2) (f a) := by
  induction h with
  | @later a a' hpoll _ ih =>
    refine .later ?_ ih
    rw [hpasses, hpoll]
  | @read bytes a a' r' hpoll hread hr' =>
    subst hread
    have hpoll' : AsyncRead.pollRead buf (f a) = (.ready (.ok ()), buf.put bytes, f a') := by
      rw [hpasses, hpoll]
    exact .read hpoll' rfl (hr _ _ hr')
  | @failed e a a' r' hpoll hread hr' =>
    subst hread
    have hpoll' : AsyncRead.pollRead buf (f a) = (.ready (.error (reworded early e)), buf, f a') := by
      rw [hpasses, hpoll]
    exact .failed hpoll' rfl (hr _ _ hr')

/-- The same of a fill. -/
inductive FillAnswers [AsyncBufRead α] (early : IoError) (A : α → ρ → Prop)
    (reply : Except IoError Bytes × ρ) : α → Prop
  | later {a a' : α} (hpoll : AsyncBufRead.pollFillBuf a = (.pending, a'))
      (hlater : FillAnswers early A reply a') : FillAnswers early A reply a
  | filled {bytes : Bytes} {a a' : α} {r' : ρ}
      (hpoll : AsyncBufRead.pollFillBuf a = (.ready (.ok bytes), a'))
      (hfill : reply = (.ok bytes, r')) (hr : A a' r') : FillAnswers early A reply a
  | failed {e : IoError} {a a' : α} {r' : ρ}
      (hpoll : AsyncBufRead.pollFillBuf a = (.ready (.error (reworded early e)), a'))
      (hfill : reply = (.error e, r')) (hr : A a' r') : FillAnswers early A reply a

structure FollowsFill [AsyncBufRead α] [BufRead ρ] (early : IoError) (A : α → ρ → Prop) : Prop where
  fill : ∀ {a r}, A a r → FillAnswers early A (BufRead.fillBuf r) a
  consume : ∀ {a r} (amount : Nat), A a r → A (AsyncBufRead.consume amount a) (BufRead.consume amount r)

section Take

/-- The same limit on both. -/
def Limited (A : α → ρ → Prop) (t : Take α) (u : Take ρ) : Prop := A t.inner u.inner ∧ t.limit = u.limit

variable {early : IoError} {A : α → ρ → Prop}

theorem Follows.take [AsyncRead α] [Read ρ] (h : Follows early A) :
    Follows early (Limited A : Take α → Take ρ → Prop) := by
  intro t u buf ht
  obtain ⟨a, limit⟩ := t
  obtain ⟨hr, hlimit⟩ : A a u.inner ∧ limit = u.limit := ht
  subst hlimit
  by_cases hzero : u.limit = 0
  · have hpoll : Take.pollRead buf ⟨a, u.limit⟩ = (.ready (.ok ()), buf.put [], ⟨a, u.limit⟩) := by
      rw [Take.pollRead, if_pos hzero, ReadBuf.put_nil]
    exact .read hpoll (Take.read_zero hzero _) ⟨hr, rfl⟩
  · have hanswer := h ⟨[], min buf.room u.limit⟩ hr
    clear hr
    induction hanswer with
    | @later a a' hpoll _ ih =>
      have htake : Take.pollRead buf ⟨a, u.limit⟩ = (.pending, buf, ⟨a', u.limit⟩) := by
        rw [Take.pollRead, if_neg hzero, hpoll]
      exact .later htake ih
    | @read bytes a a' r' hpoll hread hr' =>
      have htake : Take.pollRead buf ⟨a, u.limit⟩ =
          (.ready (.ok ()), buf.put bytes, ⟨a', u.limit - bytes.length⟩) := by
        rw [Take.pollRead, if_neg hzero, hpoll]
        rfl
      exact .read htake (Take.read_ok hzero hread) ⟨hr', rfl⟩
    | @failed e a a' r' hpoll hread hr' =>
      have htake : Take.pollRead buf ⟨a, u.limit⟩ =
          (.ready (.error (reworded early e)), buf, ⟨a', u.limit⟩) := by
        rw [Take.pollRead, if_neg hzero, hpoll]
      exact .failed htake (Take.read_error hzero hread) ⟨hr', rfl⟩

theorem FollowsFill.take [AsyncBufRead α] [BufRead ρ] (h : FollowsFill early A) :
    FollowsFill early (Limited A : Take α → Take ρ → Prop) where
  fill := by
    intro t u ht
    obtain ⟨a, limit⟩ := t
    obtain ⟨hr, hlimit⟩ : A a u.inner ∧ limit = u.limit := ht
    subst hlimit
    by_cases hzero : u.limit = 0
    · have hpoll : Take.pollFillBuf ⟨a, u.limit⟩ = (.ready (.ok []), ⟨a, u.limit⟩) := if_pos hzero
      have hfill : Take.fillBuf u = (.ok [], u) := if_pos hzero
      exact .filled hpoll hfill ⟨hr, rfl⟩
    · have hanswer := h.fill hr
      clear hr
      show FillAnswers early (Limited A) (Take.fillBuf u) _
      rw [Take.fillBuf, if_neg hzero]
      generalize BufRead.fillBuf u.inner = reply at hanswer ⊢
      induction hanswer with
      | @later a a' hpoll _ ih =>
        have htake : Take.pollFillBuf ⟨a, u.limit⟩ = (.pending, ⟨a', u.limit⟩) := by
          rw [Take.pollFillBuf, if_neg hzero, hpoll]
        exact .later htake ih
      | @filled bytes a a' r' hpoll hfill hr' =>
        have htake : Take.pollFillBuf ⟨a, u.limit⟩ =
            (.ready (.ok (bytes.take u.limit)), ⟨a', u.limit⟩) := by
          rw [Take.pollFillBuf, if_neg hzero, hpoll]
        subst hfill
        exact .filled htake rfl ⟨hr', rfl⟩
      | @failed e a a' r' hpoll hfill hr' =>
        have htake : Take.pollFillBuf ⟨a, u.limit⟩ =
            (.ready (.error (reworded early e)), ⟨a', u.limit⟩) := by
          rw [Take.pollFillBuf, if_neg hzero, hpoll]
        subst hfill
        exact .failed htake rfl ⟨hr', rfl⟩
  consume := by
    intro t u amount ht
    obtain ⟨hr, hlimit⟩ := ht
    show A (AsyncBufRead.consume (min amount t.limit) t.inner)
      (BufRead.consume (min amount u.limit) u.inner) ∧
      t.limit - min amount t.limit = u.limit - min amount u.limit
    rw [hlimit]
    exact ⟨h.consume _ hr, rfl⟩

end Take

section BufReader
variable [AsyncRead α] [Read ρ] {early : IoError} {A : α → ρ → Prop}

/-- The same bytes in the buffers of both. -/
structure SameBuffer (A : α → ρ → Prop) (a : BufReader α) (b : BufReader ρ) : Prop where
  inner : A a.inner b.inner
  buffer : a.buffer = b.buffer
  capacity : a.capacity = b.capacity

omit [AsyncRead α] [Read ρ] in
theorem SameBuffer.consume {a : BufReader α} {b : BufReader ρ} (h : SameBuffer A a b) (amount : Nat) :
    SameBuffer A (a.consume amount) (b.consume amount) :=
  ⟨h.inner, congrArg _ h.buffer, h.capacity⟩

omit [Read ρ] in
theorem BufReader.pollFillBuf_pending {a a' : BufReader α}
    (h : BufReader.pollFillBuf a = (.pending, a')) : a.buffer = [] ∧ a'.capacity = a.capacity := by
  by_cases hempty : a.buffer = []
  · rw [BufReader.pollFillBuf, if_pos hempty] at h
    split at h
    next => cases h
    next => cases h
    next =>
      cases h
      exact ⟨hempty, rfl⟩
  · rw [BufReader.pollFillBuf, if_neg hempty] at h
    cases h

theorem FollowsFill.bufReader (h : Follows early A) :
    FollowsFill early (SameBuffer A : BufReader α → BufReader ρ → Prop) where
  fill := by
    intro a b hr
    obtain ⟨a, buffer, capacity⟩ := a
    obtain ⟨hinner, hbuffer, hcapacity⟩ := hr
    replace hinner : A a b.inner := hinner
    obtain rfl : buffer = b.buffer := hbuffer
    obtain rfl : capacity = b.capacity := hcapacity
    show FillAnswers early (SameBuffer A) (BufReader.fillBuf b) _
    by_cases hempty : b.buffer = []
    · have hanswer := h ⟨[], b.capacity⟩ hinner
      clear hinner
      rw [BufReader.fillBuf, if_pos hempty]
      simp only [hempty]
      generalize Read.read b.capacity b.inner = reply at hanswer ⊢
      induction hanswer with
      | @later a a' hpoll _ ih =>
        have hfill : BufReader.pollFillBuf ⟨a, [], b.capacity⟩ = (.pending, ⟨a', [], b.capacity⟩) := by
          rw [BufReader.pollFillBuf, if_pos rfl, hpoll]
        exact .later hfill ih
      | @read bytes a a' r' hpoll hread hr' =>
        have hfill : BufReader.pollFillBuf ⟨a, [], b.capacity⟩ =
            (.ready (.ok bytes), ⟨a', bytes, b.capacity⟩) := by
          rw [BufReader.pollFillBuf, if_pos rfl, hpoll]
          rfl
        subst hread
        exact .filled hfill rfl ⟨hr', rfl, rfl⟩
      | @failed e a a' r' hpoll hread hr' =>
        have hfill : BufReader.pollFillBuf ⟨a, [], b.capacity⟩ =
            (.ready (.error (reworded early e)), ⟨a', [], b.capacity⟩) := by
          rw [BufReader.pollFillBuf, if_pos rfl, hpoll]
        subst hread
        exact .failed hfill rfl ⟨hr', rfl, rfl⟩
    · have hfill : BufReader.pollFillBuf ⟨a, b.buffer, b.capacity⟩ =
          (.ready (.ok b.buffer), ⟨a, b.buffer, b.capacity⟩) := if_neg hempty
      exact .filled hfill (if_neg hempty) ⟨hinner, rfl, rfl⟩
  consume amount hr := hr.consume amount

/-- A read that goes through the buffer waits for the fill. -/
theorem FillAnswers.read {buf : ReadBuf} {a : BufReader α} {b : BufReader ρ}
    (h : FillAnswers early (SameBuffer A) (BufReader.fillBuf b) a)
    (hpast : ¬ (b.buffer = [] ∧ b.capacity ≤ buf.room))
    (hpast' : ¬ (a.buffer = [] ∧ a.capacity ≤ buf.room)) :
    Answers early (SameBuffer A) buf (BufReader.read buf.room b) a := by
  generalize hreply : BufReader.fillBuf b = reply at h
  induction h with
  | @later a a' hpoll _ ih =>
    have hread : BufReader.pollRead buf a = (.pending, buf, a') := by
      rw [BufReader.pollRead, if_neg hpast', show BufReader.pollFillBuf a = _ from hpoll]
    refine .later hread (ih fun hempty => hpast' ?_)
    obtain ⟨hbuffer, hcapacity⟩ := BufReader.pollFillBuf_pending hpoll
    exact ⟨hbuffer, hcapacity ▸ hempty.2⟩
  | @filled bytes a a' r' hpoll hfill hr' =>
    have hread : BufReader.pollRead buf a =
        (.ready (.ok ()), buf.put (bytes.take buf.room), a'.consume buf.room) := by
      rw [BufReader.pollRead, if_neg hpast', show BufReader.pollFillBuf a = _ from hpoll]
    have hblocked : BufReader.read buf.room b = (.ok (bytes.take buf.room), r'.consume buf.room) := by
      rw [BufReader.read, if_neg hpast, hreply, hfill]
    exact .read hread hblocked (hr'.consume buf.room)
  | @failed e a a' r' hpoll hfill hr' =>
    have hread : BufReader.pollRead buf a = (.ready (.error (reworded early e)), buf, a') := by
      rw [BufReader.pollRead, if_neg hpast', show BufReader.pollFillBuf a = _ from hpoll]
    have hblocked : BufReader.read buf.room b = (.error e, r') := by
      rw [BufReader.read, if_neg hpast, hreply, hfill]
    exact .failed hread hblocked hr'

theorem Follows.bufReader (h : Follows early A) :
    Follows early (SameBuffer A : BufReader α → BufReader ρ → Prop) := by
  intro a b buf hr
  by_cases hpast : b.buffer = [] ∧ b.capacity ≤ buf.room
  · obtain ⟨a, buffer, capacity⟩ := a
    obtain ⟨hinner, hbuffer, hcapacity⟩ := hr
    replace hinner : A a b.inner := hinner
    obtain rfl : buffer = b.buffer := hbuffer
    obtain rfl : capacity = b.capacity := hcapacity
    have hanswer := h buf hinner
    clear hinner
    show Answers early (SameBuffer A) buf (BufReader.read buf.room b) _
    rw [BufReader.read, if_pos hpast]
    simp only [hpast.1]
    generalize Read.read buf.room b.inner = reply at hanswer ⊢
    induction hanswer with
    | @later a a' hpoll _ ih =>
      have hbuffered : BufReader.pollRead buf ⟨a, [], b.capacity⟩ =
          (.pending, buf, ⟨a', [], b.capacity⟩) := by
        rw [BufReader.pollRead, if_pos ⟨rfl, hpast.2⟩, hpoll]
      exact .later hbuffered ih
    | @read bytes a a' r' hpoll hread hr' =>
      have hbuffered : BufReader.pollRead buf ⟨a, [], b.capacity⟩ =
          (.ready (.ok ()), buf.put bytes, ⟨a', [], b.capacity⟩) := by
        rw [BufReader.pollRead, if_pos ⟨rfl, hpast.2⟩, hpoll]
      subst hread
      exact .read hbuffered rfl ⟨hr', rfl, rfl⟩
    | @failed e a a' r' hpoll hread hr' =>
      have hbuffered : BufReader.pollRead buf ⟨a, [], b.capacity⟩ =
          (.ready (.error (reworded early e)), buf, ⟨a', [], b.capacity⟩) := by
        rw [BufReader.pollRead, if_pos ⟨rfl, hpast.2⟩, hpoll]
      subst hread
      exact .failed hbuffered rfl ⟨hr', rfl, rfl⟩
  · have hfill := (FollowsFill.bufReader h).fill hr
    refine hfill.read hpast ?_
    rwa [hr.buffer, hr.capacity]

end BufReader

end Follows

/-! ### What the calls come to -/

section Matches
variable {α ρ ε ε' γ γ' : Type}

/-- The call `m` of the polled reader comes, with turns enough, to what the call `m'` of the
blocking one comes to, with its errors worded by `g`. -/
def Matches (g : ε → ε') (A : α → ρ → Prop) (m : Nat → Action (Stop ε') α γ) (m' : Action ε ρ γ) :
    Prop :=
  ∀ ⦃a r⦄, A a r → ∃ turns a', A a' (m' r).2 ∧
    ∀ more, m (turns + more) a = ((m' r).1.mapError fun e => .error (g e), a')

variable {g : ε → ε'} {A : α → ρ → Prop}

theorem matches_pure (x : γ) : Matches g A (fun _ => pure x) (pure x) := by
  intro a r hr
  exact ⟨0, a, hr, fun _ => rfl⟩

theorem matches_throw (e : ε) :
    Matches g A (fun _ => (throw (.error (g e)) : Action (Stop ε') α γ)) (throw e) := by
  intro a r hr
  exact ⟨0, a, hr, fun _ => rfl⟩

/-- The same of calls that word their errors by one or another function in `G`. -/
def MatchesSome (G : (ε → ε') → Prop) (A : α → ρ → Prop) (m : Nat → Action (Stop ε') α γ)
    (m' : Action ε ρ γ) : Prop :=
  ∀ ⦃a r⦄, A a r → ∃ g, G g ∧ ∃ turns a', A a' (m' r).2 ∧
    ∀ more, m (turns + more) a = ((m' r).1.mapError fun e => .error (g e), a')

theorem Matches.some {G : (ε → ε') → Prop} (hg : G g) {m : Nat → Action (Stop ε') α γ}
    {m' : Action ε ρ γ} (h : Matches g A m m') : MatchesSome G A m m' :=
  fun _ _ hr => ⟨g, hg, h hr⟩

theorem MatchesSome.bind {G : (ε → ε') → Prop} {m : Nat → Action (Stop ε') α γ} {m' : Action ε ρ γ}
    (hm : MatchesSome G A m m') {f : Nat → γ → Action (Stop ε') α γ'} {f' : γ → Action ε ρ γ'}
    (hf : ∀ x, MatchesSome G A (fun turns => f turns x) (f' x)) :
    MatchesSome G A (fun turns => m turns >>= f turns) (m' >>= f') := by
  intro a r hr
  obtain ⟨g, hg, turns, a₁, hr₁, hfirst⟩ := hm hr
  rcases hm' : m' r with ⟨e | x, r₁⟩
  · rw [hm'] at hr₁ hfirst
    refine ⟨g, hg, turns, a₁, ?_, fun more => ?_⟩
    · rw [bind_error hm']
      exact hr₁
    · show (m (turns + more) >>= f (turns + more)) a = _
      rw [bind_error (hfirst more), bind_error hm']
      rfl
  · rw [hm'] at hr₁ hfirst
    obtain ⟨g', hg', turns', a₂, hr₂, hthen⟩ := hf x hr₁
    refine ⟨g', hg', turns + turns', a₂, ?_, fun more => ?_⟩
    · rw [bind_ok hm']
      exact hr₂
    · show (m (turns + turns' + more) >>= f (turns + turns' + more)) a = _
      rw [Nat.add_assoc, bind_ok (hfirst (turns' + more)), bind_ok hm', Nat.add_left_comm]
      exact hthen (turns + more)

theorem Matches.bind {m : Nat → Action (Stop ε') α γ} {m' : Action ε ρ γ} (hm : Matches g A m m')
    {f : Nat → γ → Action (Stop ε') α γ'} {f' : γ → Action ε ρ γ'}
    (hf : ∀ x, Matches g A (fun turns => f turns x) (f' x)) :
    Matches g A (fun turns => m turns >>= f turns) (m' >>= f') := by
  intro a r hr
  have hthen : ∀ x, MatchesSome (Eq g) A (fun turns => f turns x) (f' x) := fun x => (hf x).some rfl
  obtain ⟨_, rfl, h⟩ := (hm.some rfl).bind hthen hr
  exact h

theorem Matches.borrowing {α' ρ' : Type} {A' : α' → ρ' → Prop} {m : Nat → Action (Stop ε') α' γ}
    {m' : Action ε ρ' γ} (hm : Matches g A' m m') {enter : α → α'} {leave : α' → α → α}
    {enter' : ρ → ρ'} {leave' : ρ' → ρ → ρ} (henter : ∀ {a r}, A a r → A' (enter a) (enter' r))
    (hleave : ∀ {a r b s}, A a r → A' b s → A (leave b a) (leave' s r)) :
    Matches g A (fun turns => borrowing enter leave (m turns)) (borrowing enter' leave' m') := by
  intro a r hr
  obtain ⟨turns, b, hb, hcall⟩ := hm (henter hr)
  refine ⟨turns, leave b a, hleave hr hb, fun more => ?_⟩
  simp only [borrowing_apply, hcall]

end Matches

section Calls
variable {α ρ : Type} [AsyncRead α] [Read ρ] {early : IoError} {A : α → ρ → Prop}

omit [Read ρ] in
theorem asyncReadExactTurn_poll (early : IoError) (filled : Bytes) (n : Nat) (a : α) :
    asyncReadExactTurn early (⟨filled, n + 1⟩, a) = match AsyncRead.pollRead ⟨filled, n + 1⟩ a with
      | (.pending, buf', a') => .again (buf', a')
      | (.ready (.error e), buf', a') => .exit (.error (.error e)) (buf', a')
      | (.ready (.ok ()), buf', a') =>
        if buf'.room = n + 1 then .exit (.error (.error early)) (buf', a') else .again (buf', a') := by
  simp only [asyncReadExactTurn, Nat.add_one_ne_zero, if_false]

/-- Each turn either waits, of which there is an end, or takes bytes as the loop of `read_exact`
does. -/
theorem asyncReadExactTurn_exits (h : Follows early A) (turns n : Nat) (hn : n ≤ turns)
    (filled : Bytes) {a : α} {r : ρ} (hr : A a r) : ∃ t, A t.2 (readExactLoop turns n r).2 ∧
      Turn.Exits (asyncReadExactTurn early) (⟨filled, n⟩, a)
        (((readExactLoop turns n r).1.map (filled ++ ·)).mapError fun e =>
          .error (reworded early e)) t := by
  induction turns generalizing n filled a r with
  | zero =>
    obtain rfl := Nat.le_zero.mp hn
    refine ⟨(⟨filled, 0⟩, a), hr, Turn.exits_at ?_⟩
    simp [asyncReadExactTurn, readExactLoop, Except.map, Except.mapError]
  | succ turns ih =>
    cases n with
    | zero =>
      refine ⟨(⟨filled, 0⟩, a), hr, Turn.exits_at ?_⟩
      simp [asyncReadExactTurn, readExactLoop, Except.map, Except.mapError]
    | succ n =>
      have hanswer := h ⟨filled, n + 1⟩ hr
      clear hr
      induction hanswer with
      | @later a a' hpoll _ ih' =>
        have hturn := asyncReadExactTurn_poll early filled n a
        rw [hpoll] at hturn
        obtain ⟨t, ht, hexits⟩ := ih'
        exact ⟨t, ht, hexits.first hturn⟩
      | @failed e a a' r' hpoll hread hr' =>
        have hturn := asyncReadExactTurn_poll early filled n a
        rw [hpoll] at hturn
        have hloop : readExactLoop (turns + 1) (n + 1) r = (.error e, r') := by
          rw [readExactLoop, bind_error hread]
        rw [hloop]
        exact ⟨(⟨filled, n + 1⟩, a'), hr', Turn.exits_at hturn⟩
      | @read bytes a a' r' hpoll hread hr' =>
        have hturn := asyncReadExactTurn_poll early filled n a
        rw [hpoll] at hturn
        by_cases hempty : bytes = []
        · -- The end of the stream, which each words in its own way.
          subst hempty
          have hloop : readExactLoop (turns + 1) (n + 1) r = (.error failedToFill, r') := by
            rw [readExactLoop, bind_ok hread, if_pos rfl]
            rfl
          rw [hloop]
          refine ⟨(⟨filled, n + 1⟩, a'), hr', Turn.exits_at (hturn.trans ?_)⟩
          simp [Except.map, Except.mapError]
        · have hpos := List.length_pos_iff.mpr hempty
          have hloop : readExactLoop (turns + 1) (n + 1) r =
              ((readExactLoop turns (n + 1 - bytes.length) r').1.map (bytes ++ ·),
                (readExactLoop turns (n + 1 - bytes.length) r').2) := by
            rw [readExactLoop, bind_ok hread, if_neg hempty, bind_apply]
            rcases readExactLoop turns (n + 1 - bytes.length) r' with ⟨_ | rest, r''⟩ <;> rfl
          rw [hloop]
          have hroom : ¬ (ReadBuf.put ⟨filled, n + 1⟩ bytes).room = n + 1 := by
            simp only [ReadBuf.put]
            omega
          obtain ⟨t, ht, hexits⟩ := ih (n + 1 - bytes.length) (by omega) (filled ++ bytes) hr'
          refine ⟨t, ht, ?_⟩
          have hrest := hexits.first (hturn.trans (if_neg hroom))
          rcases hreply : (readExactLoop turns (n + 1 - bytes.length) r').1 with _ | rest <;>
            simpa [hreply, Except.map, Except.mapError] using hrest

theorem asyncReadExact_matches (h : Follows early A) (n : Nat) :
    Matches (reworded early) A (fun turns => asyncReadExact early turns n) (readExact n) := by
  intro a r hr
  obtain ⟨t, ht, hexits⟩ := asyncReadExactTurn_exits h n n (Nat.le_refl n) [] hr
  obtain ⟨turns, hrun⟩ := hexits.run
  refine ⟨turns, t.2, ht, fun more => ?_⟩
  simp only [asyncReadExact, borrowing_apply, hrun more, readExact]
  rcases (readExactLoop n n r).1 with _ | bytes <;> rfl

omit [AsyncRead α] in
theorem Take.limit_read {n : Nat} {t t' : Take ρ} {bytes : Bytes} (h : Read.read n t = (.ok bytes, t')) :
    t'.limit = t.limit - bytes.length := by
  by_cases hzero : t.limit = 0
  · rw [Take.read_zero hzero] at h
    cases h
    exact (Nat.sub_zero _).symm
  · rcases hread : Read.read (min n t.limit) t.inner with ⟨e | bytes', r'⟩
    · rw [Take.read_error hzero hread] at h
      cases h
    · rw [Take.read_ok hzero hread] at h
      cases h
      rfl

omit [Read ρ] in
theorem asyncCopyTurn_zero (amount : Nat) (a : α) : asyncCopyTurn (amount, Take.mk a 0) =
    .exit (.ok amount) (amount, ⟨a, 0⟩) := by
  simp [asyncCopyTurn, AsyncRead.pollRead, Take.pollRead]

omit [Read ρ] in
theorem asyncCopyTurn_poll (amount : Nat) (t : Take α) :
    asyncCopyTurn (amount, t) = match Take.pollRead ⟨[], copyBuffer⟩ t with
      | (.pending, _, t') => .again (amount, t')
      | (.ready (.error e), _, t') => .exit (.error (.error e)) (amount, t')
      | (.ready (.ok ()), buf, t') =>
        if buf.filled = [] then .exit (.ok amount) (amount, t')
        else .again (amount + buf.filled.length, t') := by
  simp only [asyncCopyTurn, AsyncRead.pollRead]
  generalize Take.pollRead ⟨[], copyBuffer⟩ t = poll
  rcases poll with ⟨_ | ⟨_ | _⟩, buf, t'⟩ <;> rfl

/-- What the limit allows has been copied after as many turns, the waiting ones apart. -/
theorem asyncCopyTurn_exits (h : Follows early A) (turns limit : Nat) (hlimit : limit ≤ turns)
    (amount : Nat) {a : α} {r : ρ} (hr : A a r) :
    ∃ t, A t.2.inner (copyLoop turns (Take.mk r limit)).2.inner ∧
      Turn.Exits asyncCopyTurn (amount, Take.mk a limit)
        (((copyLoop turns (Take.mk r limit)).1.map (amount + ·)).mapError fun e =>
          .error (reworded early e)) t := by
  induction turns generalizing limit amount a r with
  | zero =>
    obtain rfl := Nat.le_zero.mp hlimit
    exact ⟨_, hr, Turn.exits_at (asyncCopyTurn_zero amount a)⟩
  | succ turns ih =>
    by_cases hzero : limit = 0
    · subst hzero
      have hloop : copyLoop (turns + 1) (Take.mk r 0) = (.ok 0, ⟨r, 0⟩) := by
        rw [copyLoop, bind_ok (Take.read_zero rfl _), if_pos rfl]
        rfl
      rw [hloop]
      exact ⟨_, hr, Turn.exits_at (asyncCopyTurn_zero amount a)⟩
    · have hlimited : Limited A (Take.mk a limit) (Take.mk r limit) := ⟨hr, rfl⟩
      have hanswer := h.take ⟨[], copyBuffer⟩ hlimited
      clear hlimited hr
      generalize Take.mk a limit = t at hanswer ⊢
      induction hanswer with
      | @later t t' hpoll _ ih' =>
        have hturn := asyncCopyTurn_poll amount t
        rw [show Take.pollRead _ t = _ from hpoll] at hturn
        obtain ⟨s, hs, hexits⟩ := ih'
        exact ⟨s, hs, hexits.first hturn⟩
      | @failed e t a' r' hpoll hread hr' =>
        have hturn := asyncCopyTurn_poll amount t
        rw [show Take.pollRead _ t = _ from hpoll] at hturn
        have hloop : copyLoop (turns + 1) (Take.mk r limit) = (.error e, r') := by
          rw [copyLoop, bind_error hread]
        rw [hloop]
        exact ⟨(amount, a'), hr'.1, Turn.exits_at hturn⟩
      | @read bytes t t' r' hpoll hread hr' =>
        have hturn : asyncCopyTurn (amount, t) =
            if bytes = [] then .exit (.ok amount) (amount, t')
            else .again (amount + bytes.length, t') := by
          rw [asyncCopyTurn_poll, show Take.pollRead _ t = _ from hpoll]
          rfl
        by_cases hempty : bytes = []
        · have hloop : copyLoop (turns + 1) (Take.mk r limit) = (.ok 0, r') := by
            rw [copyLoop, bind_ok hread, if_pos hempty]
            rfl
          rw [hloop]
          exact ⟨(amount, t'), hr'.1, Turn.exits_at (hturn.trans (if_pos hempty))⟩
        · have hpos := List.length_pos_iff.mpr hempty
          have hleft := Take.limit_read hread
          obtain ⟨a', limit'⟩ := t'
          obtain ⟨r', limit''⟩ := r'
          obtain ⟨hr', rfl⟩ : A a' r' ∧ limit' = limit'' := hr'
          have hloop : copyLoop (turns + 1) (Take.mk r limit) =
              ((copyLoop turns (Take.mk r' limit')).1.map (bytes.length + ·),
                (copyLoop turns (Take.mk r' limit')).2) := by
            rw [copyLoop, bind_ok hread, if_neg hempty, bind_apply]
            rcases copyLoop turns (Take.mk r' limit') with ⟨_ | rest, r''⟩ <;> rfl
          rw [hloop]
          replace hleft : limit' = limit - bytes.length := hleft
          obtain ⟨t, ht, hexits⟩ := ih limit' (by omega) (amount + bytes.length) hr'
          refine ⟨t, ht, ?_⟩
          have hrest := hexits.first (hturn.trans (if_neg hempty))
          rcases hreply : (copyLoop turns (Take.mk r' limit')).1 with _ | rest <;>
            simpa [hreply, Except.map, Except.mapError, Nat.add_assoc] using hrest

theorem asyncDiscard_matches (h : Follows early A) (n : Nat) :
    Matches (reworded early) A (fun turns => asyncDiscard turns n) (discard n) := by
  by_cases hzero : n = 0
  · subst hzero
    exact matches_pure ()
  · unfold asyncDiscard discard
    simp only [hzero, if_false]
    refine Matches.bind ?_ fun discarded => ?_
    · intro a r hr
      obtain ⟨t, ht, hexits⟩ := asyncCopyTurn_exits h n n (Nat.le_refl n) 0 hr
      obtain ⟨turns, hrun⟩ := hexits.run
      refine ⟨turns, t.2.inner, ht, fun more => ?_⟩
      simp only [taking, borrowing_apply, hrun more]
      rcases (copyLoop n (Take.mk r n)).1 with _ | copied <;> simp [Except.map, Except.mapError]
    · by_cases hall : discarded = n
      · simp only [hall, if_true]
        exact matches_pure ()
      · simp only [hall, if_false]
        have hthrow : Matches (reworded early) A
            (fun _ => (throw (.error (reworded early eofDiscarding)) : Action (Stop IoError) α Unit))
            (throw eofDiscarding) := matches_throw _
        rwa [reworded_eofDiscarding] at hthrow

end Calls

/-! ### Programs -/

section Program
variable {ε ε' β γ γ' : Type}

/-- The reply of an awaited call, as a value. -/
def settled {α : Type} (m : Action (Stop ε) α γ) : Action (Stop ε') α (Except ε γ) := fun a =>
  match m a with
  | (.ok x, a) => (.ok (.ok x), a)
  | (.error (.error e), a) => (.ok (.error e), a)
  | (.error .panic, a) => (.error .panic, a)
  | (.error .unfinished, a) => (.error .unfinished, a)

theorem settled_eq {α : Type} {m : Action (Stop ε) α γ} {a a' : α} {reply : Except ε γ}
    (h : m a = (reply.mapError .error, a')) :
    (settled m : Action (Stop ε') α _) a = (.ok reply, a') := by
  rcases reply with e | x <;> simp only [Except.mapError] at h <;> simp [settled, h]

/-- `run`, on a polled reader. -/
def Program.asyncRun {α : Type} [AsyncRead α] (early : IoError) (turns : Nat) (rem : α → β) :
    Program ε β γ → Action (Stop ε) α γ
  | done r => fun a => (r.mapError .error, a)
  | readExact n k => do
    let reply ← settled (asyncReadExact early turns n)
    asyncRun early turns rem (k reply)
  | discard n k => do
    let reply ← settled (asyncDiscard turns n)
    asyncRun early turns rem (k reply)
  | remaining k => fun a => asyncRun early turns rem (k (rem a)) a

namespace Program

/-- `p` does on the errors of `f` what `q` does on its own, up to `g` on what it fails with itself. -/
inductive Rewords (f : IoError → IoError) (g : ε → ε) : Program ε β γ → Program ε β γ → Prop
  | done (r : Except ε γ) : Rewords f g (done (r.mapError g)) (done r)
  | readExact {n : Nat} {k k' : Except IoError Bytes → Program ε β γ}
      (replied : ∀ reply, Rewords f g (k (reply.mapError f)) (k' reply)) :
      Rewords f g (readExact n k) (readExact n k')
  | discard {n : Nat} {k k' : Except IoError Unit → Program ε β γ}
      (replied : ∀ reply, Rewords f g (k (reply.mapError f)) (k' reply)) :
      Rewords f g (discard n k) (discard n k')
  | remaining {k k' : β → Program ε β γ} (asked : ∀ b, Rewords f g (k b) (k' b)) :
      Rewords f g (remaining k) (remaining k')

variable {f : IoError → IoError} {g : ε → ε}

theorem rewords_pure (x : γ) : Rewords f g (pure x : Program ε β γ) (pure x) := .done (.ok x)

theorem Rewords.bind {p q : Program ε β γ} (h : Rewords f g p q) {k k' : γ → Program ε β γ'}
    (hk : ∀ x, Rewords f g (k x) (k' x)) : Rewords f g (p >>= k) (q >>= k') := by
  show Rewords f g (p.bind k) (q.bind k')
  induction h with
  | done r =>
    cases r with
    | error e => exact .done (.error e)
    | ok x => exact hk x
  | readExact _ ih => exact .readExact ih
  | discard _ ih => exact .discard ih
  | remaining _ ih => exact .remaining ih

/-- What a program comes to is a value of the one that attempts it, and is not reworded. -/
theorem Rewords.attempt {p q : Program ε β γ} (h : Rewords f id p q) {g : ε' → ε'} :
    Rewords f g (p.attempt : Program ε' β _) q.attempt := by
  induction h with
  | done r =>
    have hr : r.mapError id = r := by cases r <;> rfl
    rw [hr]
    exact .done (.ok r)
  | readExact _ ih => exact .readExact ih
  | discard _ ih => exact .discard ih
  | remaining _ ih => exact .remaining ih

/-- The program that is told the errors of its reads in the words of `f`. -/
def rephrase (f : IoError → IoError) : Program ε β γ → Program ε β γ
  | .done r => .done r
  | .readExact n k => .readExact n fun reply => (k (reply.mapError f)).rephrase f
  | .discard n k => .discard n fun reply => (k (reply.mapError f)).rephrase f
  | .remaining k => .remaining fun b => (k b).rephrase f

theorem rephrase_rewords (f : IoError → IoError) (p : Program ε β γ) :
    Rewords f id p (p.rephrase f) := by
  induction p with
  | done r =>
    have hr : r.mapError id = r := by cases r <;> rfl
    have hdone : Rewords f id (.done (r.mapError id) : Program ε β γ) (.done r) := .done r
    rwa [hr] at hdone
  | readExact n k ih => exact .readExact fun reply => ih _
  | discard n k ih => exact .discard fun reply => ih _
  | remaining k ih => exact .remaining ih

end Program

section Run
variable {α ρ : Type} [AsyncRead α] [Read ρ] {early : IoError} {A : α → ρ → Prop}
  {g : ε → ε}

omit [AsyncRead α] [Read ρ] in
theorem Matches.replied {f : IoError → IoError} {m : Nat → Action (Stop IoError) α γ'}
    {m' : Action IoError ρ γ'} (hm : Matches f A m m')
    (k : Nat → Except IoError γ' → Action (Stop ε) α γ) (k' : Except IoError γ' → Action ε ρ γ)
    (hk : ∀ reply, Matches g A (fun turns => k turns (reply.mapError f)) (k' reply)) :
    Matches g A (fun turns => settled (m turns) >>= k turns) (fun r => k' (m' r).1 (m' r).2) := by
  intro a r hr
  obtain ⟨turns, a₁, hr₁, hfirst⟩ := hm hr
  obtain ⟨turns', a₂, hr₂, hthen⟩ := hk (m' r).1 hr₁
  refine ⟨turns + turns', a₂, hr₂, fun more => ?_⟩
  have hsettled : (settled (m (turns + turns' + more)) : Action (Stop ε) α _) a =
      (.ok ((m' r).1.mapError f), a₁) := by
    refine settled_eq ?_
    rw [Nat.add_assoc, hfirst (turns' + more)]
    rcases (m' r).1 with _ | _ <;> rfl
  show (settled (m (turns + turns' + more)) >>= k (turns + turns' + more)) a = _
  rw [bind_ok hsettled, Nat.add_assoc, Nat.add_left_comm]
  exact hthen (turns + more)

/-- What runs on a polled reader comes to what it comes to on the blocking one it follows. -/
theorem Program.asyncRun_matches (h : Follows early A) {rem : α → β} {rem' : ρ → β}
    (hrem : ∀ {a r}, A a r → rem a = rem' r) {p q : Program ε β γ}
    (hpq : Rewords (reworded early) g p q) :
    Matches g A (fun turns => p.asyncRun early turns rem) (q.run rem') := by
  induction hpq with
  | done r =>
    intro a s hs
    refine ⟨0, a, hs, fun _ => ?_⟩
    rcases r with _ | _ <;> rfl
  | @readExact n k k' _ ih =>
    exact (asyncReadExact_matches h n).replied (fun turns reply => (k reply).asyncRun early turns rem)
      (fun reply => (k' reply).run rem') ih
  | @discard n k k' _ ih =>
    exact (asyncDiscard_matches h n).replied (fun turns reply => (k reply).asyncRun early turns rem)
      (fun reply => (k' reply).run rem') ih
  | remaining _ ih =>
    intro a r hr
    simp only [asyncRun, run, hrem hr]
    exact ih _ hr

end Run

end Program

/-! ### A polled transport -/

/-- Segments, of which each may be waited for a while; every `none` is a poll that comes too early. -/
structure Delayed where
  segments : List (Option Bytes)
  nonempty : ∀ s ∈ segments, s ≠ some []

namespace Delayed

theorem nonempty_tail {s : Option Bytes} {rest : List (Option Bytes)}
    (h : ∀ x ∈ s :: rest, x ≠ some []) :
    ∀ x ∈ rest, x ≠ some [] :=
  fun x hx => h x (List.mem_cons_of_mem s hx)

theorem nonempty_drop {s : Bytes} {rest : List (Option Bytes)} {n : Nat}
    (h : ∀ x ∈ some s :: rest, x ≠ some []) (hn : ¬ s.length ≤ n) :
    ∀ x ∈ some (s.drop n) :: rest, x ≠ some [] := by
  intro x hx
  cases hx with
  | head =>
    intro he
    exact hn (List.drop_eq_nil_iff.mp (Option.some.inj he))
  | tail _ hx => exact nonempty_tail h x hx

def pollRead (buf : ReadBuf) (d : Delayed) : PollIo Unit × ReadBuf × Delayed :=
  match d with
  | ⟨[], h⟩ => (.ready (.ok ()), buf, ⟨[], h⟩)
  | ⟨none :: rest, h⟩ => (.pending, buf, ⟨rest, nonempty_tail h⟩)
  | ⟨some s :: rest, h⟩ =>
    if hn : s.length ≤ buf.room then (.ready (.ok ()), buf.put s, ⟨rest, nonempty_tail h⟩)
    else (.ready (.ok ()), buf.put (s.take buf.room),
      ⟨some (s.drop buf.room) :: rest, nonempty_drop h hn⟩)

instance : AsyncRead Delayed := ⟨pollRead⟩

/-- The segments that a reader blocks for. -/
def Brings (d : Delayed) (t : Segments) : Prop := d.segments.reduceOption = t.segments

theorem follows (early : IoError) : Follows early Brings := by
  intro d t buf hd
  obtain ⟨segments, h⟩ := d
  obtain ⟨arrived, harrived⟩ := t
  obtain rfl : segments.reduceOption = arrived := hd
  induction segments with
  | nil =>
    have hpoll : pollRead buf ⟨[], h⟩ = (.ready (.ok ()), buf.put [], ⟨[], h⟩) := by
      rw [ReadBuf.put_nil]
      rfl
    exact .read hpoll rfl rfl
  | cons s rest ih =>
    cases s with
    | none => exact .later rfl (ih (nonempty_tail h) harrived)
    | some s =>
      by_cases hn : s.length ≤ buf.room
      · have hpoll : pollRead buf ⟨some s :: rest, h⟩ =
            (.ready (.ok ()), buf.put s, ⟨rest, nonempty_tail h⟩) :=
          dif_pos hn
        exact .read hpoll (dif_pos hn) rfl
      · have hpoll : pollRead buf ⟨some s :: rest, h⟩ =
            (.ready (.ok ()), buf.put (s.take buf.room),
              ⟨some (s.drop buf.room) :: rest, nonempty_drop h hn⟩) :=
          dif_neg hn
        exact .read hpoll (dif_neg hn) rfl

end Delayed

end Protocraft.Stream
