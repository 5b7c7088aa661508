import Protocraft.Stream.Sink
import Protocraft.Stream.Turn

/-! Polled streams.

A poll answers `pending` when it cannot go on, and the caller polls again later. The
polls of a writer are relations (`Polls`), since the body of a poll is a loop, and
`Polls.Reaches` are the states any order of them leads to. -/
namespace Protocraft.Stream

inductive Poll (α : Type) where
  | pending
  | ready (value : α)
  deriving DecidableEq, Repr

abbrev PollIo (α : Type) := Poll (Except IoError α)

class AsyncWrite (ω : Type) where
  pollWrite : Bytes → ω → PollIo Nat × ω
  pollFlush : ω → PollIo Unit × ω

/-- The caller's buffer: what it holds, and the room left behind that. -/
structure ReadBuf where
  filled : Bytes
  room : Nat
  deriving DecidableEq, Repr

def ReadBuf.put (buf : ReadBuf) (bytes : Bytes) : ReadBuf :=
  ⟨buf.filled ++ bytes, buf.room - bytes.length⟩

class AsyncRead (ρ : Type) where
  pollRead : ReadBuf → ρ → PollIo Unit × ReadBuf × ρ

class AsyncBufRead (ρ : Type) where
  pollFillBuf : ρ → PollIo Bytes × ρ
  consume : Nat → ρ → ρ

/-- A reader that answers every poll at once. -/
structure Ready (ρ : Type) where
  reader : ρ

instance {ρ : Type} [BufRead ρ] : AsyncBufRead (Ready ρ) where
  pollFillBuf r := (.ready (BufRead.fillBuf r.reader).1, ⟨(BufRead.fillBuf r.reader).2⟩)
  consume n r := ⟨BufRead.consume n r.reader⟩

/-! ### Polled sinks -/

section Sink
variable {ω : Type} [AsyncWrite ω]

/-- `received w` are the bytes taken so far: a front part of each slice a write is
ready with, not empty unless the slice is, and nothing otherwise. -/
structure AsyncLawful (received : ω → Bytes) : Prop where
  written : ∀ {w bytes n w'}, AsyncWrite.pollWrite bytes w = (.ready (.ok n), w') →
    n ≤ bytes.length ∧ (bytes ≠ [] → 0 < n) ∧ received w' = received w ++ bytes.take n
  refused : ∀ {w bytes e w'}, AsyncWrite.pollWrite bytes w = (.ready (.error e), w') →
    received w' = received w
  waited : ∀ {w bytes w'}, AsyncWrite.pollWrite bytes w = (.pending, w') → received w' = received w

/-- The same but for what a write must take: it may be ready with none of its slice. -/
structure AsyncTakes (received : ω → Bytes) : Prop where
  written : ∀ {w bytes n w'}, AsyncWrite.pollWrite bytes w = (.ready (.ok n), w') →
    n ≤ bytes.length ∧ received w' = received w ++ bytes.take n
  kept : ∀ {w bytes reply w'}, AsyncWrite.pollWrite bytes w = (reply, w') →
    (∀ n, reply ≠ .ready (.ok n)) →
    received w' = received w

theorem AsyncLawful.takes {received : ω → Bytes} (h : AsyncLawful received) : AsyncTakes received where
  written := by
    intro w bytes n w' hpoll
    obtain ⟨hn, -, hreceived⟩ := h.written hpoll
    exact ⟨hn, hreceived⟩
  kept := by
    intro w bytes reply w' hpoll hreply
    rcases reply with _ | e | n
    · exact h.waited hpoll
    · exact h.refused hpoll
    · exact absurd rfl (hreply n)

/-- A buffered sink, as `Hides`. -/
structure AsyncHides (received visible : ω → Bytes) : Prop extends AsyncTakes received where
  flushed : ∀ w, received (AsyncWrite.pollFlush w).2 = received w
  within : ∀ w, visible w <+: received w
  hidden : ∀ bytes w, visible (AsyncWrite.pollWrite bytes w).2 = visible w
  shown : ∀ {w w'}, AsyncWrite.pollFlush w = (.ready (.ok ()), w') → visible w' = received w'

/-- A sink that takes no more than it is offered, and answers zero to an empty slice. -/
structure Modest (ω : Type) [AsyncWrite ω] : Prop where
  written : ∀ {w w' : ω} {bytes n}, AsyncWrite.pollWrite bytes w = (.ready (.ok n), w') →
    n ≤ bytes.length
  empty : ∀ w : ω, ∃ w', AsyncWrite.pollWrite [] w = (.ready (.ok 0), w')

/-- Offered `bytes` so many times, it answers zero each time. -/
def Refuses (bytes : Bytes) : Nat → ω → Prop
  | 0, _ => True
  | times + 1, w => ∃ w', AsyncWrite.pollWrite bytes w = (.ready (.ok 0), w') ∧ Refuses bytes times w'

/-- Offered `bytes`, and then what it has left of them, it comes to answering zero for ever. -/
inductive Stalls : Bytes → ω → Prop
  | refuses {bytes : Bytes} {w : ω} (hne : bytes ≠ [])
      (h : ∀ times, Refuses bytes times w) : Stalls bytes w
  | took {bytes : Bytes} {n : Nat} {w w' : ω}
      (hpoll : AsyncWrite.pollWrite bytes w = (.ready (.ok n), w'))
      (hn : n < bytes.length) (h : Stalls (bytes.drop n) w') : Stalls bytes w

/-- It comes to waiting, failing or having taken them all. -/
inductive Settles : Bytes → ω → Prop
  | ended {bytes : Bytes} {reply : PollIo Nat} {w w' : ω}
      (hpoll : AsyncWrite.pollWrite bytes w = (reply, w'))
      (hreply : ∀ n, reply ≠ .ready (.ok n)) : Settles bytes w
  | tookAll {bytes : Bytes} {w w' : ω}
      (hpoll : AsyncWrite.pollWrite bytes w = (.ready (.ok bytes.length), w')) : Settles bytes w
  | took {bytes : Bytes} {n : Nat} {w w' : ω}
      (hpoll : AsyncWrite.pollWrite bytes w = (.ready (.ok n), w'))
      (hn : n < bytes.length) (h : Settles (bytes.drop n) w') : Settles bytes w

theorem Stalls.next {bytes : Bytes} {w : ω} (h : Stalls bytes w) : ∃ n w',
    AsyncWrite.pollWrite bytes w = (.ready (.ok n), w') ∧ n < bytes.length ∧
      Stalls (bytes.drop n) w' := by
  cases h with
  | refuses hne h =>
    obtain ⟨w', hpoll, -⟩ := h 1
    refine ⟨0, w', hpoll, List.length_pos_iff.mpr hne, .refuses hne fun times => ?_⟩
    obtain ⟨w₁, hpoll₁, hrest⟩ := h (times + 1)
    obtain ⟨-, rfl⟩ := Prod.mk.inj (hpoll.symm.trans hpoll₁)
    exact hrest
  | took hpoll hn h => exact ⟨_, _, hpoll, hn, h⟩

theorem Settles.not_stalls {bytes : Bytes} {w : ω} (h : Settles bytes w) : ¬ Stalls bytes w := by
  induction h with
  | ended hpoll hreply =>
    intro hstalls
    obtain ⟨n, w', hnext, -⟩ := hstalls.next
    exact hreply n (congrArg Prod.fst (hpoll.symm.trans hnext))
  | tookAll hpoll =>
    intro hstalls
    obtain ⟨n, w', hnext, hn, -⟩ := hstalls.next
    cases hpoll.symm.trans hnext
    exact Nat.lt_irrefl _ hn
  | took hpoll _ _ ih =>
    intro hstalls
    obtain ⟨n, w', hnext, -, hrest⟩ := hstalls.next
    cases hpoll.symm.trans hnext
    exact ih hrest

/-- A sink stalls or settles. -/
theorem settles_iff (hmodest : Modest ω) {bytes : Bytes} {w : ω} :
    Settles bytes w ↔ ¬ Stalls bytes w := by
  refine ⟨Settles.not_stalls, ?_⟩
  induction hlength : bytes.length using Nat.strong_induction_on generalizing bytes w with
  | _ length ih =>
    subst hlength
    intro hstalls
    by_contra hsettles
    -- What neither settles nor stalls refuses, as often as it is offered.
    have hrefuses : ∀ times (w : ω), ¬ Stalls bytes w → ¬ Settles bytes w → Refuses bytes times w := by
      intro times
      induction times with
      | zero => exact fun _ _ _ => trivial
      | succ times ihtimes =>
        intro w hstalls hsettles
        rcases hpoll : AsyncWrite.pollWrite bytes w with ⟨_ | e | n, w'⟩
        · exact absurd (.ended hpoll fun _ h => by cases h) hsettles
        · exact absurd (.ended hpoll fun _ h => by cases h) hsettles
        · have hn := hmodest.written hpoll
          by_cases hall : n = bytes.length
          · subst hall
            exact absurd (.tookAll hpoll) hsettles
          · have hlt : n < bytes.length := by omega
            have hstalls' : ¬ Stalls (bytes.drop n) w' := fun h => hstalls (.took hpoll hlt h)
            have hsettles' : ¬ Settles (bytes.drop n) w' := fun h => hsettles (.took hpoll hlt h)
            rcases Nat.eq_zero_or_pos n with rfl | hpos
            · exact ⟨w', hpoll, ihtimes w' hstalls' hsettles'⟩
            · refine absurd (ih _ ?_ rfl hstalls') hsettles'
              rw [List.length_drop]
              omega
    have hne : bytes ≠ [] := by
      intro heq
      subst heq
      obtain ⟨w', hpoll⟩ := hmodest.empty w
      exact hsettles (.tookAll hpoll)
    exact hstalls (.refuses hne fun times => hrefuses times w hstalls hsettles)

end Sink

/-! ### Polled sessions -/

/-- How many bytes a write has accepted by its reply. -/
def PollIo.accepted : PollIo Nat → Nat
  | .ready (.ok n) => n
  | _ => 0

theorem PollIo.accepted_eq_zero {reply : PollIo Nat} (h : ∀ n, reply ≠ .ready (.ok n)) :
    reply.accepted = 0 := by
  rcases reply with _ | _ | n
  · rfl
  · rfl
  · exact absurd rfl (h n)

/-- The polls of a writer, each as a relation between the writer before, the reply and
the writer after. -/
structure Polls (ω : Type) where
  write : Bytes → ω → PollIo Nat → ω → Prop
  flush : ω → PollIo Unit → ω → Prop

/-- The states any order of polls leads to. -/
inductive Polls.Reaches {ω : Type} (polls : Polls ω) (start : Session ω) : Session ω → Prop
  | start : Reaches polls start start
  | write {s : Session ω} {buf : Bytes} {reply : PollIo Nat} {w : ω} (h : Reaches polls start s)
      (hpoll : polls.write buf s.writer reply w) :
      Reaches polls start ⟨w, s.accepted ++ buf.take reply.accepted⟩
  | flush {s : Session ω} {reply : PollIo Unit} {w : ω} (h : Reaches polls start s)
      (hpoll : polls.flush s.writer reply w) : Reaches polls start ⟨w, s.accepted⟩

/-- `f` wraps a writer, and the polls of the wrapped one are those of the writer. -/
structure Polls.Wraps {ω ω' : Type} (polls : Polls ω) (polls' : Polls ω') (f : ω → ω') : Prop where
  write : ∀ {buf w reply w'}, polls'.write buf (f w) reply w' → ∃ v, w' = f v ∧ polls.write buf w reply v
  flush : ∀ {w reply w'}, polls'.flush (f w) reply w' → ∃ v, w' = f v ∧ polls.flush w reply v

/-- Whatever polls a wrapped writer gets, it goes through the states of the writer. -/
theorem Polls.Wraps.reaches {ω ω' : Type} {polls : Polls ω} {polls' : Polls ω'} {f : ω → ω'}
    (h : polls.Wraps polls' f) (start : Session ω) {s' : Session ω'}
    (hreach : polls'.Reaches (start.map f) s') : ∃ s, s' = s.map f ∧ polls.Reaches start s := by
  induction hreach with
  | start => exact ⟨start, rfl, .start⟩
  | write _ hpoll ih =>
    obtain ⟨s, rfl, hreach⟩ := ih
    obtain ⟨v, rfl, hinner⟩ := h.write hpoll
    exact ⟨_, rfl, hreach.write hinner⟩
  | flush _ hpoll ih =>
    obtain ⟨s, rfl, hreach⟩ := ih
    obtain ⟨v, rfl, hinner⟩ := h.flush hpoll
    exact ⟨_, rfl, hreach.flush hinner⟩

/-! ### Polled readers -/

section Reader
variable {ρ : Type} [AsyncRead ρ] {R : ρ → Bytes → Prop}

/-- `R r c`: reader `r` still holds the bytes `c`. A poll that is ready has put the next
of them behind what the buffer held; any other has touched neither. -/
structure AsyncTracks (R : ρ → Bytes → Prop) : Prop where
  ready : ∀ {r c buf buf' r'}, R r c → AsyncRead.pollRead buf r = (.ready (.ok ()), buf', r') →
    ∃ bytes c', buf' = buf.put bytes ∧ bytes.length ≤ buf.room ∧ c = bytes ++ c' ∧ R r' c'
  waited : ∀ {r c buf reply buf' r'}, R r c → AsyncRead.pollRead buf r = (reply, buf', r') →
    reply ≠ .ready (.ok ()) → buf' = buf ∧ R r' c

/-- A reader and the bytes its polls have put into their buffers. -/
structure Polling (ρ : Type) where
  reader : ρ
  yielded : Bytes

/-- A poll with a buffer, whatever comes of it. -/
def Polling.step (s : Polling ρ) (buf : ReadBuf) : Polling ρ :=
  ⟨(AsyncRead.pollRead buf s.reader).2.2,
    s.yielded ++ (AsyncRead.pollRead buf s.reader).2.1.filled.drop buf.filled.length⟩

def Polling.run (s : Polling ρ) (bufs : List ReadBuf) : Polling ρ := bufs.foldl step s

theorem AsyncTracks.step (h : AsyncTracks R) {s : Polling ρ} {c : Bytes} (hr : R s.reader c)
    (buf : ReadBuf) : ∃ c', R (s.step buf).reader c' ∧ s.yielded ++ c = (s.step buf).yielded ++ c' := by
  rcases hpoll : AsyncRead.pollRead buf s.reader with ⟨reply, buf', r⟩
  simp only [Polling.step, hpoll]
  by_cases hready : reply = .ready (.ok ())
  · subst hready
    obtain ⟨bytes, c', rfl, -, rfl, hr'⟩ := h.ready hr hpoll
    exact ⟨c', hr', by simp [ReadBuf.put]⟩
  · obtain ⟨rfl, hr'⟩ := h.waited hr hpoll hready
    exact ⟨c, hr', by simp⟩

theorem AsyncTracks.run (h : AsyncTracks R) {s : Polling ρ} {c : Bytes} (hr : R s.reader c)
    (bufs : List ReadBuf) :
    ∃ c', R (s.run bufs).reader c' ∧ s.yielded ++ c = (s.run bufs).yielded ++ c' := by
  induction bufs generalizing s c with
  | nil => exact ⟨c, hr, rfl⟩
  | cons buf bufs ih =>
    obtain ⟨c₁, hr₁, hsplit₁⟩ := h.step hr buf
    obtain ⟨c₂, hr₂, hsplit₂⟩ := ih hr₁
    exact ⟨c₂, hr₂, hsplit₁.trans hsplit₂⟩

end Reader

/-- What arrives at each poll: nothing yet (`none`), an error, or bytes, of which the
buffer takes what it has room for. -/
structure Arrivals where
  arrivals : List (Option (Except IoError Bytes))

def Arrivals.Holds (a : Arrivals) (c : Bytes) : Prop :=
  (a.arrivals.flatMap fun | some (.ok bytes) => bytes | _ => []) = c

instance : AsyncRead Arrivals where
  pollRead buf a := match a.arrivals with
    | [] => (.ready (.ok ()), buf, ⟨[]⟩)
    | none :: rest => (.pending, buf, ⟨rest⟩)
    | some (.error e) :: rest => (.ready (.error e), buf, ⟨rest⟩)
    | some (.ok bytes) :: rest =>
      (.ready (.ok ()), buf.put (bytes.take buf.room), ⟨some (.ok (bytes.drop buf.room)) :: rest⟩)

theorem Arrivals.tracks : AsyncTracks Arrivals.Holds where
  ready := by
    intro s c buf buf' r' h hpoll
    obtain rfl := h
    obtain ⟨_ | ⟨_ | e | bytes, rest⟩⟩ := s <;> cases hpoll
    · exact ⟨[], [], by simp [ReadBuf.put], Nat.zero_le _, rfl, rfl⟩
    · refine ⟨bytes.take buf.room, _, rfl, List.length_take_le _ _, ?_, rfl⟩
      simp [← List.append_assoc]
  waited := by
    intro s c buf reply buf' r' h hpoll hne
    obtain rfl := h
    obtain ⟨_ | ⟨_ | e | bytes, rest⟩⟩ := s <;> cases hpoll
    · exact absurd rfl hne
    · exact ⟨rfl, rfl⟩
    · exact ⟨rfl, rfl⟩
    · exact absurd rfl hne

/-- Answers each write as its script says: pending (`none`), an error, or a count to
accept at most and one at least; everything once the script is over. -/
structure AsyncScripted where
  answers : List (Option (Except IoError Nat))
  bytes : Bytes
  deriving DecidableEq

instance : AsyncWrite AsyncScripted where
  pollWrite bytes s := match s.answers with
    | [] => (.ready (.ok bytes.length), ⟨[], s.bytes ++ bytes⟩)
    | some (.ok n) :: answers =>
      (.ready (.ok (min (n + 1) bytes.length)), ⟨answers, s.bytes ++ bytes.take (n + 1)⟩)
    | some (.error e) :: answers => (.ready (.error e), ⟨answers, s.bytes⟩)
    | none :: answers => (.pending, ⟨answers, s.bytes⟩)
  pollFlush s := (.ready (.ok ()), s)

theorem AsyncScripted.lawful : AsyncLawful AsyncScripted.bytes where
  written := by
    intro s bytes k w' hwrite
    obtain ⟨_ | ⟨_ | e | n, answers⟩, b⟩ := s <;> cases hwrite
    · exact ⟨Nat.le_refl _, fun hne => List.length_pos_iff.mpr hne, by simp⟩
    · refine ⟨Nat.min_le_right _ _, fun hne => ?_, ?_⟩
      · have := List.length_pos_iff.mpr hne
        omega
      · simp [List.take_eq_take_iff]
  refused := by
    intro s bytes e' w' hwrite
    obtain ⟨_ | ⟨_ | e | n, answers⟩, b⟩ := s <;> cases hwrite
    rfl
  waited := by
    intro s bytes w' hwrite
    obtain ⟨_ | ⟨_ | e | n, answers⟩, b⟩ := s <;> cases hwrite
    rfl

instance : AsyncWrite Held where
  pollWrite bytes h := (.ready (.ok bytes.length), ⟨h.visible, h.held ++ bytes⟩)
  pollFlush h := (.ready (.ok ()), ⟨h.received, []⟩)

theorem Held.asyncHides : AsyncHides Held.received Held.visible where
  written := by
    intro w bytes n w' hpoll
    cases hpoll
    exact ⟨Nat.le_refl _, by simp [Held.received]⟩
  kept := by
    intro w bytes reply w' hpoll hreply
    cases hpoll
    exact absurd rfl (hreply _)
  flushed w := List.append_nil _
  within w := List.prefix_append _ _
  hidden _ _ := rfl
  shown := by
    intro w w' hpoll
    cases hpoll
    exact (List.append_nil _).symm

/-- Takes nothing, and says so. -/
structure Deaf where
  deriving DecidableEq

instance : AsyncWrite Deaf where
  pollWrite _ w := (.ready (.ok 0), w)
  pollFlush w := (.ready (.ok ()), w)

theorem Deaf.modest : Modest Deaf where
  written := by
    intro w w' bytes n hpoll
    cases hpoll
    exact Nat.zero_le _
  empty w := ⟨w, rfl⟩

end Protocraft.Stream
