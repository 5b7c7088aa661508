import Protocraft.Defaults.AsyncWriter

/-! When the polls of a writer return.

A poll offers the buffer to the sink until it waits, fails or has taken it all; a sink that only
ever answers zero keeps it going, and so does a buffer without room, in `poll_write`. Nothing
else does (`polls_return_iff`). -/
namespace Protocraft
open Protocraft.Stream

namespace AsyncStaged
variable {κ ω : Type} [InPlace κ]

/-- A write finds room in the buffer. -/
def HasRoom (s : AsyncStaged κ ω) : Prop := s.state = .fill ∧ s.buffer.length < s.capacity

/-- What is being written is in the buffer, and the buffer in its capacity. -/
structure Within (capacity : Nat) (s : AsyncStaged κ ω) : Prop where
  offset : ∀ offset, s.state = .write offset → offset ≤ s.buffer.length
  buffer : s.buffer.length ≤ capacity
  capacity : s.capacity = capacity

variable {s : AsyncStaged κ ω} {capacity : Nat}

theorem Within.encrypt (h : Within capacity s) : Within capacity s.encrypt := by
  refine ⟨fun offset hs => ?_, ?_, h.capacity⟩
  · cases hs
    exact Nat.zero_le _
  · simp only [AsyncStaged.encrypt, Mealy.length_output]
    exact h.buffer

omit [InPlace κ] in
theorem Within.clear (h : Within capacity s) : Within capacity s.clear :=
  ⟨(fun offset hs => by cases hs), Nat.zero_le _, h.capacity⟩

omit [InPlace κ] in
theorem Within.answered (h : Within capacity s) (w : ω) : Within capacity {s with writer := w} :=
  ⟨h.offset, h.buffer, h.capacity⟩

omit [InPlace κ] in
theorem Within.advanced (h : Within capacity s) {w : ω} {offset : Nat}
    (hoffset : offset ≤ s.buffer.length) :
    Within capacity {s with writer := w, state := .write offset} := by
  refine ⟨fun offset' hs => ?_, h.buffer, h.capacity⟩
  cases hs
  exact hoffset

section Polls
variable [AsyncWrite ω]

theorem HasRoom.write (h : s.HasRoom) (buf : Bytes) :
    ∃ reply s', Turn.Exits (pollWriteTurn buf) s reply s' := by
  have hturn := pollWriteTurn_fill buf h.1
  rw [if_pos h.2] at hturn
  exact ⟨_, _, Turn.exits_at hturn⟩

/-! ### Reachable states -/

omit [InPlace κ] in
theorem Within.writeTurn (h : Within capacity s) (hmodest : Modest ω) {α : Type}
    {written : AsyncStaged κ ω → Turn (AsyncStaged κ ω) (PollIo α)}
    (hwritten : ∀ s, Within capacity s → Within capacity (written s).state) {offset : Nat}
    (hs : s.state = .write offset) : Within capacity (writeTurn written s offset).state := by
  rcases writeTurn_cases written s offset
      with ⟨reply, w, -, -, answer, -, hturn⟩ | ⟨n, w, hpoll, hturn⟩ <;> rw [hturn]
  · exact h.answered w
  · split
    · exact hwritten _ (h.answered w)
    · have hn := hmodest.written hpoll
      have hoffset := h.offset offset hs
      rw [List.length_drop] at hn
      exact h.advanced (by omega)

theorem Within.pollWriteTurn (h : Within capacity s) (hmodest : Modest ω) (buf : Bytes) :
    Within capacity (pollWriteTurn buf s).state := by
  cases hs : s.state with
  | fill =>
    rw [pollWriteTurn_fill buf hs]
    split
    · next hroom =>
      refine ⟨fun offset hs' => ?_, ?_, h.capacity⟩
      · cases hs.symm.trans hs'
      · have hcapacity := h.capacity
        simp only [Turn.state, List.length_append, List.length_take]
        omega
    · exact h.encrypt
  | write offset =>
    rw [pollWriteTurn_write buf hs]
    refine h.writeTurn hmodest ?_ hs
    intro s hs
    exact hs.clear

theorem Within.pollFlushTurn (h : Within capacity s) (hmodest : Modest ω) :
    Within capacity (pollFlushTurn s).state := by
  cases hs : s.state with
  | fill =>
    rw [pollFlushTurn_fill hs]
    exact h.encrypt
  | write offset =>
    rw [pollFlushTurn_write hs]
    refine h.writeTurn hmodest ?_ hs
    intro s hs
    exact hs.clear

theorem Within.reaches (hmodest : Modest ω) {start : AsyncStaged κ ω} (hstate : start.state = .fill)
    (hbuffer : start.buffer = []) {s : Session (AsyncStaged κ ω)}
    (hreach : polls.Reaches ⟨start, []⟩ s) : Within start.capacity s.writer := by
  induction hreach with
  | start =>
    refine ⟨fun offset hs => ?_, ?_, rfl⟩
    · cases hstate.symm.trans hs
    · show start.buffer.length ≤ _
      rw [hbuffer]
      exact Nat.zero_le _
  | write _ hpoll ih => exact Turn.Exits.keeps (fun h => h.pollWriteTurn hmodest _) ih hpoll
  | flush _ hpoll ih => exact Turn.Exits.keeps (fun h => h.pollFlushTurn hmodest) ih hpoll

/-! ### Returning -/

omit [InPlace κ] in
/-- A poll that offers bytes to a sink that settles returns, if it does with all of them
written. -/
theorem exits_of_settles {α : Type} {turn written : AsyncStaged κ ω → Turn (AsyncStaged κ ω) (PollIo α)}
    (hturn : ∀ {s offset}, s.state = .write offset → turn s = writeTurn written s offset)
    {bytes : Bytes} {sink : ω}
    (hsettles : Settles bytes sink) {s : AsyncStaged κ ω} {offset : Nat} (hs : s.state = .write offset)
    (hoffset : offset ≤ s.buffer.length) (hsink : s.writer = sink)
    (hbytes : s.buffer.drop offset = bytes)
    (hdone : ∀ t : AsyncStaged κ ω, t.capacity = s.capacity →
      (∃ reply s', written t = .exit reply s') ∨
        ∃ t', written t = .again t' ∧ ∃ reply s', Turn.Exits turn t' reply s') :
    ∃ reply s', Turn.Exits turn s reply s' := by
  induction hsettles generalizing s offset with
  | ended hpoll hreply =>
    subst hbytes hsink
    rcases writeTurn_cases written s offset with ⟨reply, w, -, -, answer, -, hwrite⟩ | ⟨n, w, hpoll', -⟩
    · exact ⟨_, _, Turn.exits_at ((hturn hs).trans hwrite)⟩
    · exact absurd (congrArg Prod.fst (hpoll.symm.trans hpoll')) (hreply n)
  | tookAll hpoll =>
    subst hbytes hsink
    rw [List.length_drop] at hpoll
    rcases writeTurn_cases written s offset with ⟨reply, w, hpoll', hreply, -⟩ | ⟨n, w, hpoll', hwrite⟩
    · exact absurd (congrArg Prod.fst (hpoll'.symm.trans hpoll)) (hreply _)
    · obtain ⟨hn, -⟩ := Prod.mk.inj (hpoll'.symm.trans hpoll)
      cases hn
      rw [if_pos (by omega)] at hwrite
      rcases hdone {s with writer := w} rfl with ⟨reply, s', hlast⟩ | ⟨t', hlast, reply, s', hrest⟩
      · exact ⟨reply, s', Turn.exits_at ((hturn hs).trans (hwrite.trans hlast))⟩
      · exact ⟨reply, s', hrest.first ((hturn hs).trans (hwrite.trans hlast))⟩
  | @took bytes n sink w hpoll hn _ ih =>
    subst hbytes hsink
    rw [List.length_drop] at hn
    rcases writeTurn_cases written s offset with ⟨reply, w, hpoll', hreply, -⟩ | ⟨n', w', hpoll', hwrite⟩
    · exact absurd (congrArg Prod.fst (hpoll'.symm.trans hpoll)) (hreply _)
    · obtain ⟨hsame, rfl⟩ := Prod.mk.inj (hpoll'.symm.trans hpoll)
      cases hsame
      rw [if_neg (by omega)] at hwrite
      have hoffset' : offset + n ≤ s.buffer.length := by omega
      obtain ⟨reply, s', hrest⟩ := ih (s := {s with writer := w', state := .write (offset + n)})
        rfl hoffset' rfl List.drop_drop.symm hdone
      exact ⟨reply, s', hrest.first ((hturn hs).trans hwrite)⟩

omit [InPlace κ] in
/-- And one that offers bytes to a sink that stalls goes on to do so. -/
theorem writeTurn_stalls {α : Type} (written : AsyncStaged κ ω → Turn (AsyncStaged κ ω) (PollIo α))
    {offset : Nat}
    (hoffset : offset ≤ s.buffer.length) (hstalls : Stalls (s.buffer.drop offset) s.writer) :
    ∃ n w, writeTurn written s offset = .again {s with writer := w, state := .write (offset + n)} ∧
      offset + n ≤ s.buffer.length ∧ Stalls (s.buffer.drop (offset + n)) w := by
  obtain ⟨n, w, hpoll, hn, hrest⟩ := hstalls.next
  rw [List.length_drop] at hn
  rw [List.drop_drop] at hrest
  refine ⟨n, w, ?_, by omega, hrest⟩
  simp only [writeTurn, hpoll]
  rw [if_neg (by omega)]

/-- A flush returns just when the sink does not come to answering zero for ever. -/
theorem flush_returns_iff (hmodest : Modest ω) (h : Within capacity s) :
    (∃ reply s', polls.flush s reply s') ↔ ¬ Stalls s.outstanding s.writer := by
  constructor
  · intro hexits hstalls
    refine Turn.loops
      (I := fun t : AsyncStaged κ ω => Within capacity t ∧ Stalls t.outstanding t.writer) ?_
      ⟨h, hstalls⟩ hexits
    intro t h
    obtain ⟨ht, hstalls⟩ := h
    cases hs : t.state with
    | fill =>
      simp only [outstanding, hs] at hstalls
      exact ⟨_, pollFlushTurn_fill hs, ht.encrypt, hstalls⟩
    | write offset =>
      simp only [outstanding, hs] at hstalls
      obtain ⟨n, w, hturn, hoffset, hrest⟩ := writeTurn_stalls (fun s => .exit (.ready (.ok ())) s.clear)
        (ht.offset offset hs) hstalls
      refine ⟨_, (pollFlushTurn_write hs).trans hturn, ?_, hrest⟩
      exact ht.advanced hoffset
  · intro hstalls
    have hsettles := (settles_iff hmodest).mpr hstalls
    cases hs : s.state with
    | fill =>
      simp only [outstanding, hs] at hsettles
      obtain ⟨reply, s', hrest⟩ := exits_of_settles pollFlushTurn_write hsettles (s := s.encrypt) rfl
        (Nat.zero_le _) rfl rfl fun t _ => .inl ⟨_, _, rfl⟩
      exact ⟨reply, s', hrest.first (pollFlushTurn_fill hs)⟩
    | write offset =>
      simp only [outstanding, hs] at hsettles
      exact exits_of_settles pollFlushTurn_write hsettles hs (h.offset offset hs) rfl rfl
        fun t _ => .inl ⟨_, _, rfl⟩

theorem pollWriteTurn_full (buf : Bytes) (hroom : ¬ s.HasRoom) (hs : s.state = .fill) :
    pollWriteTurn buf s = .again s.encrypt := by
  rw [pollWriteTurn_fill buf hs, if_neg fun hlt => hroom ⟨hs, hlt⟩]

/-- Without capacity a write empties its empty buffer again and again. -/
theorem write_loops_empty (hmodest : Modest ω) (h : Within 0 s) (buf : Bytes) :
    ¬ ∃ reply s', polls.write buf s reply s' := by
  refine Turn.loops (I := fun t : AsyncStaged κ ω => Within 0 t) ?_ h
  intro t ht
  have hbuffer := List.length_eq_zero_iff.mp (Nat.le_zero.mp ht.buffer)
  cases hs : t.state with
  | fill =>
    refine ⟨_, pollWriteTurn_full buf ?_ hs, ht.encrypt⟩
    intro hroom
    exact Nat.not_lt_zero _ (ht.capacity ▸ hroom.2)
  | write offset =>
    obtain ⟨w, hpoll⟩ := hmodest.empty t.writer
    have hoffset := ht.offset offset hs
    rw [hbuffer] at hoffset
    cases Nat.le_zero.mp hoffset
    refine ⟨_, (pollWriteTurn_write buf hs).trans ?_, (ht.answered w).clear⟩
    simp only [writeTurn, hbuffer, List.drop_nil, hpoll]
    exact if_pos rfl

/-- A write without room goes on offering what is outstanding to a sink that stalls. -/
theorem write_loops_stalled (h : Within capacity s) (hroom : ¬ s.HasRoom)
    (hstalls : Stalls s.outstanding s.writer)
    (buf : Bytes) : ¬ ∃ reply s', polls.write buf s reply s' := by
  refine Turn.loops (I := fun t : AsyncStaged κ ω =>
    Within capacity t ∧ ¬ t.HasRoom ∧ Stalls t.outstanding t.writer) ?_ ⟨h, hroom, hstalls⟩
  intro t ht
  obtain ⟨ht, hroom, hstalls⟩ := ht
  cases hs : t.state with
  | fill =>
    simp only [outstanding, hs] at hstalls
    exact ⟨_, pollWriteTurn_full buf hroom hs, ht.encrypt, (fun h => by cases h.1), hstalls⟩
  | write offset =>
    simp only [outstanding, hs] at hstalls
    obtain ⟨n, w, hturn, hoffset, hrest⟩ := writeTurn_stalls (fun s => .again s.clear)
      (ht.offset offset hs) hstalls
    exact ⟨_, (pollWriteTurn_write buf hs).trans hturn, ht.advanced hoffset,
      (fun h => by cases h.1), hrest⟩

/-- With all of the buffer written there is room, and the next turn is the last. -/
theorem write_returns_settled (h : Within capacity s) (hroom : ¬ s.HasRoom) (hcapacity : 0 < capacity)
    (hsettles : Settles s.outstanding s.writer) (buf : Bytes) :
    ∃ reply s', polls.write buf s reply s' := by
  have hdone : ∀ t : AsyncStaged κ ω, t.capacity = s.capacity →
      ∃ reply s', Turn.Exits (pollWriteTurn buf) t.clear reply s' := by
    intro t ht
    have hcleared : t.clear.HasRoom := by
      refine ⟨rfl, ?_⟩
      show 0 < t.capacity
      rw [ht, h.capacity]
      exact hcapacity
    exact hcleared.write buf
  cases hs : s.state with
  | fill =>
    simp only [outstanding, hs] at hsettles
    obtain ⟨reply, s', hrest⟩ := exits_of_settles (pollWriteTurn_write buf) hsettles (s := s.encrypt) rfl
      (Nat.zero_le _) rfl rfl fun t ht => .inr ⟨_, rfl, hdone t ht⟩
    exact ⟨reply, s', hrest.first (pollWriteTurn_full buf hroom hs)⟩
  | write offset =>
    simp only [outstanding, hs] at hsettles
    exact exits_of_settles (pollWriteTurn_write buf) hsettles hs (h.offset offset hs) rfl rfl
      fun t ht => .inr ⟨_, rfl, hdone t ht⟩

/-- A write that finds no room returns just when, besides, there is any capacity at all. -/
theorem write_returns_iff (hmodest : Modest ω) (h : Within capacity s) (buf : Bytes) :
    (∃ reply s', polls.write buf s reply s') ↔
    s.HasRoom ∨ 0 < capacity ∧ ¬ Stalls s.outstanding s.writer := by
  by_cases hroom : s.HasRoom
  · exact ⟨fun _ => .inl hroom, fun _ => hroom.write buf⟩
  constructor
  · intro hexits
    refine .inr ⟨Nat.pos_of_ne_zero fun hzero => ?_,
      fun hstalls => write_loops_stalled h hroom hstalls buf hexits⟩
    subst hzero
    exact write_loops_empty hmodest h buf hexits
  · intro hreturns
    obtain ⟨hcapacity, hstalls⟩ := hreturns.resolve_left hroom
    exact write_returns_settled h hroom hcapacity ((settles_iff hmodest).mpr hstalls) buf

/-- **When the polls return.** In every state any order of polls leads to: a write returns at once
where there is room, and otherwise, as a flush does, just when the sink does not come to answering
zero for ever to what is outstanding; but without any capacity no write returns. -/
theorem polls_return_iff (hmodest : Modest ω) {start : AsyncStaged κ ω} (hstate : start.state = .fill)
    (hbuffer : start.buffer = []) {s : Session (AsyncStaged κ ω)} (hreach : polls.Reaches ⟨start, []⟩ s)
    (buf : Bytes) :
    ((∃ reply s', polls.write buf s.writer reply s') ↔ s.writer.HasRoom ∨
      0 < start.capacity ∧ ¬ Stalls s.writer.outstanding s.writer.writer) ∧
    ((∃ reply s', polls.flush s.writer reply s') ↔ ¬ Stalls s.writer.outstanding s.writer.writer) := by
  have hwithin := Within.reaches hmodest hstate hbuffer hreach
  exact ⟨write_returns_iff hmodest hwithin buf, flush_returns_iff hmodest hwithin⟩

/-- Over a sink that takes nothing a write into an empty buffer returns, and so does a flush. -/
theorem polls_return_deaf :
    (∃ reply s', polls.write [1, 2] (⟨(), Deaf.mk, [], 4, .fill⟩ : AsyncBufferedWriter Deaf) reply s') ∧
    ∃ reply s', polls.flush (⟨(), Deaf.mk, [], 4, .fill⟩ : AsyncBufferedWriter Deaf) reply s' := by
  let start : AsyncBufferedWriter Deaf := ⟨(), Deaf.mk, [], 4, .fill⟩
  have hreach : polls.Reaches ⟨start, []⟩ ⟨start, []⟩ := .start
  have h := polls_return_iff Deaf.modest rfl rfl hreach [1, 2]
  refine ⟨h.1.mpr (.inl ⟨rfl, by decide⟩), h.2.mpr ?_⟩
  intro hstalls
  obtain ⟨n, w, -, hn, -⟩ := hstalls.next
  exact Nat.not_lt_zero n hn

/-- Without capacity `poll_write` goes round for ever, and over a sink that answers zero
`poll_flush` does. -/
theorem polls_hang :
    (¬ ∃ reply s', polls.write [1]
      (⟨(), ⟨[], []⟩, [], 0, .fill⟩ : AsyncBufferedWriter AsyncScripted) reply s') ∧
    ∃ s, (polls.Reaches ⟨(⟨(), Deaf.mk, [], 4, .fill⟩ : AsyncBufferedWriter Deaf), []⟩ s) ∧
      ¬ ∃ reply s', polls.flush s.writer reply s' := by
  constructor
  · refine Turn.loops
      (I := fun t => t = ⟨(), ⟨[], []⟩, [], 0, .fill⟩ ∨ t = ⟨(), ⟨[], []⟩, [], 0, .write 0⟩) ?_
      (.inl rfl)
    intro t h
    obtain rfl | rfl := h
    · exact ⟨_, rfl, .inr rfl⟩
    · exact ⟨_, rfl, .inl rfl⟩
  · have hfirst : (polls (κ := Unit) (ω := Deaf)).write [1] ⟨(), Deaf.mk, [], 4, .fill⟩ (.ready (.ok 1))
        ⟨(), Deaf.mk, [1], 4, .fill⟩ := Turn.exits_at rfl
    refine ⟨_, .write .start hfirst, ?_⟩
    refine Turn.loops
      (I := fun t => t = ⟨(), Deaf.mk, [1], 4, .fill⟩ ∨ t = ⟨(), Deaf.mk, [1], 4, .write 0⟩) ?_
      (.inl rfl)
    intro t h
    obtain rfl | rfl := h
    · exact ⟨_, rfl, .inr rfl⟩
    · exact ⟨_, rfl, .inr rfl⟩

end Polls
end AsyncStaged

end Protocraft
