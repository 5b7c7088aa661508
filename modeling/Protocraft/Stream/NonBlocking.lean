import Protocraft.Stream.Polled

/-! One poll, and one read that does not block.

To see whether a byte has come a polled reader is polled once, and a blocking one is read with its
blocking switched off. The two agree on a transport when each poll is put off just when such a
read would block (`FollowsUnblocked`), and so they do behind a buffer. -/
namespace Protocraft.Stream

section Follows
variable {α ρ : Type}

/-- What a poll does where a read that does not block comes to `reply`. -/
inductive AnswersAtOnce (ended : IoError) (B : α → ρ → Prop) (buf : ReadBuf)
    (reply : Except IoError Bytes × ρ) : PollIo Unit × ReadBuf × α → Prop
  | later {e : IoError} {a' : α} {r' : ρ} (hread : reply = (.error e, r'))
      (hblocks : e.kind = .wouldBlock)
      (hr : B a' r') : AnswersAtOnce ended B buf reply (.pending, buf, a')
  | read {bytes : Bytes} {a' : α} {r' : ρ} (hread : reply = (.ok bytes, r')) (hr : B a' r') :
    AnswersAtOnce ended B buf reply (.ready (.ok ()), buf.put bytes, a')
  | failed {e : IoError} {a' : α} {r' : ρ} (hread : reply = (.error e, r'))
      (hfails : e.kind ≠ .wouldBlock)
      (hr : B a' r') : AnswersAtOnce ended B buf reply (.ready (.error (reworded ended e)), buf, a')

theorem AnswersAtOnce.passes {β τ : Type} {ended : IoError} {B : α → ρ → Prop} {C : β → τ → Prop}
    {buf : ReadBuf} {reply : Except IoError Bytes × ρ} {poll : PollIo Unit × ReadBuf × α}
    (h : AnswersAtOnce ended B buf reply poll) (f : α → β) (g : ρ → τ)
    (hr : ∀ a r, B a r → C (f a) (g r)) :
    AnswersAtOnce ended C buf (reply.1, g reply.2) (poll.1, poll.2.1, f poll.2.2) := by
  cases h with
  | later hread hblocks hr' =>
    subst hread
    exact .later rfl hblocks (hr _ _ hr')
  | read hread hr' =>
    subst hread
    exact .read rfl (hr _ _ hr')
  | failed hread hfails hr' =>
    subst hread
    exact .failed rfl hfails (hr _ _ hr')

/-- The polled readers that stand for a blocking one, in each mode. -/
structure FollowsUnblocked [AsyncRead α] [Read ρ] [SetBlocking ρ] (ended : IoError)
    (A : Bool → α → ρ → Prop) : Prop where
  switch : ∀ {mode a r} (blocking : Bool), A mode a r →
    ∃ r', SetBlocking.setBlocking blocking r = (.ok (), r') ∧ A blocking a r'
  read : ∀ {a r} (buf : ReadBuf), A false a r →
    AnswersAtOnce ended (A false) buf (Read.read buf.room r) (AsyncRead.pollRead buf a)

variable [AsyncRead α] [Read ρ] [SetBlocking ρ] {ended : IoError} {A : Bool → α → ρ → Prop}

theorem FollowsUnblocked.bufReader (h : FollowsUnblocked ended A) :
    FollowsUnblocked ended fun mode : Bool =>
      (SameBuffer (A mode) : BufReader α → BufReader ρ → Prop) where
  switch := by
    intro mode a b blocking hr
    obtain ⟨r', hset, hr'⟩ := h.switch blocking hr.inner
    refine ⟨{b with inner := r'}, ?_, hr', hr.buffer, hr.capacity⟩
    show ((SetBlocking.setBlocking blocking b.inner).1, _) = _
    rw [hset]
  read := by
    intro a b buf hr
    show AnswersAtOnce _ _ _ (BufReader.read buf.room b) (BufReader.pollRead buf a)
    unfold BufReader.read BufReader.pollRead BufReader.fillBuf BufReader.pollFillBuf
    rw [hr.buffer, hr.capacity]
    by_cases hpast : b.buffer = [] ∧ b.capacity ≤ buf.room
    · simp only [hpast, and_self, if_true]
      have hpoll := h.read buf hr.inner
      generalize Read.read buf.room b.inner = reply at hpoll ⊢
      generalize AsyncRead.pollRead buf a.inner = poll at hpoll ⊢
      cases hpoll with
      | later hread hblocks hr' =>
        subst hread
        exact .later rfl hblocks ⟨hr', rfl, rfl⟩
      | read hread hr' =>
        subst hread
        exact .read rfl ⟨hr', rfl, rfl⟩
      | failed hread hfails hr' =>
        subst hread
        exact .failed rfl hfails ⟨hr', rfl, rfl⟩
    · simp only [hpast, if_false]
      by_cases hempty : b.buffer = []
      · simp only [hempty, if_true]
        have hpoll := h.read ⟨[], b.capacity⟩ hr.inner
        generalize Read.read b.capacity b.inner = reply at hpoll ⊢
        generalize AsyncRead.pollRead ⟨[], b.capacity⟩ a.inner = poll at hpoll ⊢
        cases hpoll with
        | later hread hblocks hr' =>
          subst hread
          exact .later rfl hblocks ⟨hr', rfl, rfl⟩
        | read hread hr' =>
          subst hread
          simp only [ReadBuf.put, List.nil_append]
          exact .read rfl ⟨hr', rfl, rfl⟩
        | failed hread hfails hr' =>
          subst hread
          exact .failed rfl hfails ⟨hr', rfl, rfl⟩
      · simp only [hempty, if_false]
        exact .read rfl (hr.consume buf.room)

end Follows

/-! ### A transport of both kinds -/

namespace Delayed

/-- Waits for the next segment. -/
def block (d : Delayed) : Delayed :=
  ⟨d.segments.dropWhile Option.isNone, fun s hs => d.nonempty s ((List.dropWhile_sublist _).subset hs)⟩

/-- The blocking reader of delayed segments. -/
structure Waiting where
  source : Delayed
  blocking : Bool

namespace Waiting

def read (n : Nat) : Action IoError Waiting Bytes := fun w =>
  match Delayed.pollRead ⟨[], n⟩ (if w.blocking then w.source.block else w.source) with
  | (.ready (.ok ()), buf, d) => (.ok buf.filled, {w with source := d})
  | (.ready (.error e), _, d) => (.error e, {w with source := d})
  | (.pending, _, d) => (.error ⟨.wouldBlock, ""⟩, {w with source := d})

instance : Read Waiting := ⟨read⟩

instance : SetBlocking Waiting := ⟨fun blocking w => (.ok (), {w with blocking := blocking})⟩

end Waiting

def Waits (mode : Bool) (d : Delayed) (w : Waiting) : Prop := w = ⟨d, mode⟩

theorem pollRead_arrived (buf : ReadBuf) {d : Delayed} (h : ∀ rest, d.segments ≠ none :: rest) :
    ∃ bytes d' room, Delayed.pollRead buf d = (.ready (.ok ()), buf.put bytes, d') ∧
      Delayed.pollRead ⟨[], buf.room⟩ d = (.ready (.ok ()), ⟨bytes, room⟩, d') := by
  obtain ⟨segments, hsegments⟩ := d
  match segments, hsegments with
  | [], hsegments => exact ⟨[], ⟨[], hsegments⟩, buf.room, by rw [ReadBuf.put_nil]; rfl, rfl⟩
  | none :: rest, _ => exact absurd rfl (h rest)
  | some s :: rest, hsegments =>
    by_cases hn : s.length ≤ buf.room
    · exact ⟨s, ⟨rest, nonempty_tail hsegments⟩, _, dif_pos hn, dif_pos hn⟩
    · exact ⟨s.take buf.room, ⟨some (s.drop buf.room) :: rest, nonempty_drop hsegments hn⟩, _,
        dif_neg hn, dif_neg hn⟩

theorem waits_follows (early : IoError) : Follows early (Waits true) := by
  intro d w buf hw
  obtain rfl : w = ⟨d, true⟩ := hw
  show Answers early (Waits true) buf (Waiting.read buf.room ⟨d, true⟩) d
  obtain ⟨segments, h⟩ := d
  have harrived : ∀ d : Delayed, (∀ rest, d.segments ≠ none :: rest) → d.block = d →
      Answers early (Waits true) buf (Waiting.read buf.room ⟨d, true⟩) d := by
    intro d hd hblock
    obtain ⟨bytes, d', room, hpoll, hwaited⟩ := pollRead_arrived buf hd
    have hread : Waiting.read buf.room ⟨d, true⟩ = (.ok bytes, ⟨d', true⟩) := by
      simp only [Waiting.read, if_true, hblock, hwaited]
    exact .read hpoll hread rfl
  induction segments with
  | nil => exact harrived ⟨[], h⟩ (fun _ he => by cases he) rfl
  | cons s rest ih =>
    cases s with
    | none => exact .later rfl (ih (nonempty_tail h))
    | some s => exact harrived ⟨some s :: rest, h⟩ (fun _ he => by cases he) rfl

theorem waits_followsUnblocked (ended : IoError) : FollowsUnblocked ended Waits where
  switch := by
    intro mode d w blocking hw
    obtain rfl : w = ⟨d, mode⟩ := hw
    exact ⟨⟨d, blocking⟩, rfl, rfl⟩
  read := by
    intro d w buf hw
    obtain rfl : w = ⟨d, false⟩ := hw
    show AnswersAtOnce ended (Waits false) buf (Waiting.read buf.room ⟨d, false⟩)
        (Delayed.pollRead buf d)
    by_cases hd : ∀ rest, d.segments ≠ none :: rest
    · obtain ⟨bytes, d', room, hpoll, hwaited⟩ := pollRead_arrived buf hd
      have hread : Waiting.read buf.room ⟨d, false⟩ = (.ok bytes, ⟨d', false⟩) := by
        simp only [Waiting.read, Bool.false_eq_true, if_false, hwaited]
      rw [hpoll]
      exact .read hread rfl
    · push Not at hd
      obtain ⟨rest, hrest⟩ := hd
      obtain ⟨segments, h⟩ := d
      obtain rfl : segments = none :: rest := hrest
      have hblocks : Waiting.read buf.room ⟨⟨none :: rest, h⟩, false⟩ =
          (.error ⟨.wouldBlock, ""⟩, ⟨⟨rest, nonempty_tail h⟩, false⟩) := rfl
      exact .later hblocks rfl rfl

end Delayed

end Protocraft.Stream
