import Mathlib.Data.List.Basic
import Mathlib.Logic.Function.Basic

/-! Two parties that follow one script.

The script says in which order the two send each other messages, and what each does by itself in
between. A party goes through it alone: it sends its own messages, waits for the other's, and does
the rest when it comes to it. What one has sent and the other has not received is in a queue.

However their steps interleave, one party is ahead of the other or neither is, and the queue holds
what the leader has sent on the way (`Led`). So a message is received where it was sent
(`Following.receive`): the two parties have the same script behind them, and agree on whatever
that determines. An act that must not overtake the messages around it is safe where the other
party speaks next (`Turning`). -/
namespace Protocraft.Stream

inductive Side where
  | left
  | right
  deriving DecidableEq, Repr

def Side.other : Side → Side
  | left => right
  | right => left

@[simp] theorem Side.other_other (side : Side) : side.other.other = side := by cases side <;> rfl

@[simp] theorem Side.other_ne (side : Side) : side.other ≠ side := by cases side <;> decide

@[simp] theorem Side.ne_other (side : Side) : side ≠ side.other := by cases side <;> decide

theorem Side.eq_or (side leader : Side) : side = leader ∨ side = leader.other := by
  cases side <;> cases leader <;> decide

/-- A message for the other party, or an act of both. -/
inductive Event (μ τ : Type) where
  | message (sender : Side) (m : μ)
  | act (a : τ)

/-- How far a party has come. -/
structure Party (μ τ : Type) where
  past : List (Event μ τ)
  due : List (Event μ τ)

section Choreography
variable {μ τ : Type}

/-- What `side` sends in the course of `events`, each message with all that was behind it. -/
def sent (side : Side) : List (Event μ τ) → List (Event μ τ) → List (List (Event μ τ) × μ)
  | _, [] => []
  | past, .message sender m :: rest =>
    if sender = side then (past, m) :: sent side (past ++ [.message sender m]) rest
    else sent side (past ++ [.message sender m]) rest
  | past, .act a :: rest => sent side (past ++ [.act a]) rest

theorem sent_append (side : Side) (past xs ys : List (Event μ τ)) :
    sent side past (xs ++ ys) = sent side past xs ++ sent side (past ++ xs) ys := by
  induction xs generalizing past with
  | nil => simp [sent]
  | cons e xs ih =>
    cases e with
    | message sender m =>
      simp only [List.cons_append, sent, ih]
      split <;> simp
    | act a => simp [sent, ih]

/-- Whatever is sent is sent behind what was past. -/
theorem sent_past {side : Side} {past events : List (Event μ τ)} {x : List (Event μ τ) × μ}
    (h : x ∈ sent side past events) : past <+: x.1 := by
  induction events generalizing past with
  | nil => simp [sent] at h
  | cons e events ih =>
    cases e with
    | message sender m =>
      rw [sent] at h
      by_cases hsender : sender = side
      · rw [if_pos hsender] at h
        cases h with
        | head => exact List.prefix_refl _
        | tail _ h => exact (List.prefix_append _ _).trans (ih h)
      · rw [if_neg hsender] at h
        exact (List.prefix_append _ _).trans (ih h)
    | act a => exact (List.prefix_append _ _).trans (ih h)

theorem sent_within {side : Side} {past events : List (Event μ τ)} {x : List (Event μ τ) × μ}
    (h : x ∈ sent side past events) : x.1 <+: past ++ events := by
  induction events generalizing past with
  | nil => simp [sent] at h
  | cons e events ih =>
    rw [List.append_cons]
    cases e with
    | message sender m =>
      rw [sent] at h
      by_cases hsender : sender = side
      · rw [if_pos hsender] at h
        cases h with
        | head => exact (List.prefix_append _ _).trans (List.prefix_append _ _)
        | tail _ h => exact ih h
      · rw [if_neg hsender] at h
        exact ih h
    | act a => exact ih h

/-- `parties` with `side` past its next event. -/
def advance (parties : Side → Party μ τ) (side : Side) (e : Event μ τ) (rest : List (Event μ τ)) :
    Side → Party μ τ :=
  Function.update parties side ⟨(parties side).past ++ [e], rest⟩

variable {script : List (Event μ τ)} {parties : Side → Party μ τ}
  {queue : Side → List (List (Event μ τ) × μ)}

/-- The leader is `ahead` of the other party, which has not sent it anything since. -/
structure Led (script : List (Event μ τ)) (parties : Side → Party μ τ)
    (queue : Side → List (List (Event μ τ) × μ)) (leader : Side) (ahead : List (Event μ τ)) : Prop where
  scripted : ∀ side, (parties side).past ++ (parties side).due = script
  between : (parties leader).past = (parties leader.other).past ++ ahead
  queued : queue leader = sent leader (parties leader.other).past ahead
  empty : queue leader.other = []
  own : ∀ m, Event.message leader.other m ∉ ahead

def Following (script : List (Event μ τ)) (parties : Side → Party μ τ)
    (queue : Side → List (List (Event μ τ) × μ)) : Prop :=
  ∃ leader ahead, Led script parties queue leader ahead

namespace Led
variable {leader : Side} {ahead : List (Event μ τ)}

theorem due (h : Led script parties queue leader ahead) :
    (parties leader.other).due = ahead ++ (parties leader).due := by
  have hscript := (h.scripted leader.other).trans (h.scripted leader).symm
  rw [h.between, List.append_assoc] at hscript
  exact List.append_cancel_left hscript

/-- Where neither is ahead, each of them leads. -/
theorem symm (h : Led script parties queue leader []) : Led script parties queue leader.other [] where
  scripted := h.scripted
  between := by simpa using h.between.symm
  queued := by rw [h.empty]; rfl
  empty := by simpa [sent] using h.queued
  own := by simp

theorem lead (h : Led script parties queue leader ahead) {e : Event μ τ} {rest : List (Event μ τ)}
    (hdue : (parties leader).due = e :: rest) (hown : ∀ m, e ≠ .message leader.other m) :
    Led script (advance parties leader e rest)
      (Function.update queue leader (queue leader ++ sent leader (parties leader).past [e])) leader
      (ahead ++ [e]) where
  scripted := by
    intro side
    obtain rfl | rfl := side.eq_or leader
    · simpa [advance, hdue] using h.scripted side
    · simpa [advance] using h.scripted leader.other
  between := by simp [advance, h.between]
  queued := by simp [advance, h.queued, h.between, sent_append]
  empty := by simp [h.empty]
  own := by
    intro m hm
    rcases List.mem_append.mp hm with hm | hm
    · exact h.own m hm
    · exact hown m (List.mem_singleton.mp hm).symm

theorem follow {e : Event μ τ} (h : Led script parties queue leader (e :: ahead)) :
    Led script (advance parties leader.other e (ahead ++ (parties leader).due))
      (Function.update queue leader (sent leader ((parties leader.other).past ++ [e]) ahead))
        leader ahead where
  scripted := by
    intro side
    obtain rfl | rfl := side.eq_or leader
    · simpa [advance] using h.scripted side
    · have hscript := h.scripted leader.other
      rw [h.due] at hscript
      simpa [advance] using hscript
  between := by simp [advance, h.between]
  queued := by simp [advance]
  empty := by simp [h.empty]
  own m hm := h.own m (List.mem_cons_of_mem _ hm)

end Led

namespace Following

theorem start (script : List (Event μ τ)) : Following script (fun _ => ⟨[], script⟩) (fun _ => []) :=
  ⟨.left, [], fun _ => rfl, rfl, rfl, rfl, by simp⟩

theorem scripted (h : Following script parties queue) (side : Side) :
    (parties side).past ++ (parties side).due = script := by
  obtain ⟨leader, ahead, h⟩ := h
  exact h.scripted side

/-- A party can lead unless it has to wait for a message. -/
theorem leads (h : Following script parties queue) {side : Side} {e : Event μ τ}
    {rest : List (Event μ τ)} (hdue : (parties side).due = e :: rest) :
    (∃ ahead, Led script parties queue side ahead) ∨
    ∃ ahead, Led script parties queue side.other (e :: ahead) := by
  obtain ⟨leader, ahead, h⟩ := h
  obtain rfl | rfl := side.eq_or leader
  · exact .inl ⟨ahead, h⟩
  · cases ahead with
    | nil => exact .inl ⟨[], h.symm⟩
    | cons e' ahead =>
      have hdue' := h.due
      rw [hdue] at hdue'
      cases hdue'
      exact .inr ⟨ahead, by rwa [Side.other_other]⟩

theorem send (h : Following script parties queue) {side : Side} {m : μ} {rest : List (Event μ τ)}
    (hdue : (parties side).due = .message side m :: rest) :
    Following script (advance parties side (.message side m) rest)
      (Function.update queue side (queue side ++ [((parties side).past, m)])) := by
  obtain ⟨ahead, h⟩ | ⟨ahead, h⟩ := h.leads hdue
  · have hled := h.lead hdue fun m' he => Side.ne_other side (Event.message.inj he).1
    have hsent : sent side (parties side).past [.message side m] = [((parties side).past, m)] := by
      simp [sent]
    rw [hsent] at hled
    exact ⟨side, _, hled⟩
  · have hown := h.own m
    rw [Side.other_other] at hown
    exact absurd (List.mem_cons_self ..) hown

/-- A message is received at the point of the script where it was sent. -/
theorem receive (h : Following script parties queue) {side : Side} {m : μ} {rest : List (Event μ τ)}
    (hdue : (parties side).due = .message side.other m :: rest) {x : List (Event μ τ) × μ}
    {queue' : List (List (Event μ τ) × μ)} (hqueue : queue side.other = x :: queue') :
    x = ((parties side).past, m) ∧ Following script (advance parties side (.message side.other m) rest)
      (Function.update queue side.other queue') := by
  obtain ⟨ahead, h⟩ | ⟨ahead, h⟩ := h.leads hdue
  · rw [h.empty] at hqueue
    cases hqueue
  · have hqueued := h.queued
    rw [hqueue, Side.other_other, sent, if_pos rfl] at hqueued
    obtain ⟨rfl, rfl⟩ := List.cons.inj hqueued
    have hrest := h.due
    have hfollow := h.follow
    rw [Side.other_other] at hrest hfollow
    rw [hdue] at hrest
    obtain rfl := (List.cons.inj hrest).2
    exact ⟨rfl, side.other, ahead, hfollow⟩

theorem act (h : Following script parties queue) {side : Side} {a : τ} {rest : List (Event μ τ)}
    (hdue : (parties side).due = .act a :: rest) :
    Following script (advance parties side (.act a) rest) queue := by
  obtain ⟨ahead, h⟩ | ⟨ahead, h⟩ := h.leads hdue
  · have hled := h.lead hdue fun m he => nomatch he
    have hnone : sent side (parties side).past [.act a] = [] := rfl
    rw [hnone, List.append_nil, Function.update_eq_self] at hled
    exact ⟨side, _, hled⟩
  · have hrest := h.due
    have hfollow := h.follow
    have hqueued := h.queued
    rw [Side.other_other] at hrest hfollow hqueued
    rw [hdue] at hrest
    obtain rfl := (List.cons.inj hrest).2
    have hsame : sent side.other (parties side).past (.act a :: ahead) =
        sent side.other ((parties side).past ++ [.act a]) ahead := rfl
    rw [← hsame, ← hqueued, Function.update_eq_self] at hfollow
    exact ⟨side.other, ahead, hfollow⟩

/-- Nothing is left in the queues in the end. -/
theorem done (h : Following script parties queue) (hdone : ∀ side, (parties side).due = [])
    (side : Side) : queue side = [] := by
  obtain ⟨leader, ahead, h⟩ := h
  have hdue := h.due
  rw [hdone, hdone, List.append_nil] at hdue
  subst hdue
  obtain rfl | rfl := side.eq_or leader
  · exact h.queued
  · exact h.empty

/-- Until then one of the two can go on. -/
theorem goes_on (h : Following script parties queue) : (∀ side, (parties side).due = []) ∨ ∃ side e rest,
    (parties side).due = e :: rest ∧ ∀ m, e = .message side.other m → queue side.other ≠ [] := by
  obtain ⟨leader, ahead, h⟩ := h
  have hdue := h.due
  cases ahead with
  | cons e ahead =>
    refine .inr ⟨leader.other, e, _, hdue, ?_⟩
    intro m he hempty
    subst he
    have hqueued := h.queued
    rw [Side.other_other] at hempty hqueued
    rw [hempty, sent, if_pos rfl] at hqueued
    cases hqueued
  | nil =>
    cases hnext : (parties leader).due with
    | nil =>
      refine .inl fun side => ?_
      obtain rfl | rfl := side.eq_or leader
      · exact hnext
      · exact hdue.trans hnext
    | cons e rest =>
      rw [hnext] at hdue
      cases e with
      | act a => exact .inr ⟨leader, .act a, rest, hnext, fun m he => nomatch he⟩
      | message sender m =>
        have hspeaks : (parties sender).due = .message sender m :: rest := by
          obtain rfl | rfl := sender.eq_or leader
          · exact hnext
          · exact hdue
        exact .inr ⟨sender, _, rest, hspeaks,
          fun m' he => absurd (Event.message.inj he).1 (Side.ne_other sender)⟩

/-- What is in a queue was sent between the places of the two. -/
theorem queued (h : Following script parties queue) {side : Side} {x : List (Event μ τ) × μ}
    (hx : x ∈ queue side) : (parties side.other).past <+: x.1 ∧ x.1 <+: (parties side).past := by
  obtain ⟨leader, ahead, h⟩ := h
  obtain rfl | rfl := side.eq_or leader
  · rw [h.queued] at hx
    rw [h.between]
    exact ⟨sent_past hx, sent_within hx⟩
  · rw [h.empty] at hx
    cases hx

end Following

/-! ### Switches -/

section Switch
variable (switch : τ → Prop)

def Switched (past : List (Event μ τ)) : Prop := ∃ a, switch a ∧ .act a ∈ past

/-- Who sends the first message. -/
def speaker : List (Event μ τ) → Option Side
  | [] => none
  | .message sender _ :: _ => some sender
  | .act _ :: rest => speaker rest

/-- There is one switch at most, and the party that speaks next is not the one that spoke `last`. -/
def Turning : Option Side → List (Event μ τ) → Prop
  | _, [] => True
  | _, .message sender _ :: rest => Turning (some sender) rest
  | last, .act a :: rest =>
    (switch a → (∀ side, last = some side → speaker rest ≠ some side) ∧ ¬ Switched switch rest) ∧
      Turning last rest

variable {switch}

theorem Switched.mono {past past' : List (Event μ τ)} (h : Switched switch past)
    (hpast : past <+: past') : Switched switch past' := by
  obtain ⟨a, ha, hmem⟩ := h
  exact ⟨a, ha, hpast.subset hmem⟩

theorem switched_append {xs ys : List (Event μ τ)} :
    Switched switch (xs ++ ys) ↔ Switched switch xs ∨ Switched switch ys := by
  simp [Switched, and_or_left, exists_or]

theorem switched_act {past : List (Event μ τ)} {a : τ} :
    Switched switch (past ++ [.act a]) ↔ Switched switch past ∨ switch a := by
  rw [switched_append]
  refine or_congr_right ⟨?_, fun ha => ⟨a, ha, List.mem_singleton_self _⟩⟩
  rintro ⟨b, hb, hmem⟩
  cases List.mem_singleton.mp hmem
  exact hb

theorem not_switched_message (side : Side) (m : μ) :
    ¬ Switched switch ([.message side m] : List (Event μ τ)) := by
  simp [Switched]

theorem speaker_append {side : Side} {m : μ} {xs rest : List (Event μ τ)}
    (hown : ∀ m, Event.message side.other m ∉ xs) :
    speaker (xs ++ .message side m :: rest) = some side := by
  induction xs with
  | nil => rfl
  | cons e xs ih =>
    have hrest := ih fun m' hm => hown m' (List.mem_cons_of_mem _ hm)
    cases e with
    | act a => exact hrest
    | message sender m' =>
      obtain rfl | rfl := sender.eq_or side
      · rfl
      · exact absurd (List.mem_cons_self ..) (hown m')

/-- A party that has spoken does not speak on behind a switch. -/
theorem Turning.not_switched {side : Side} {m : μ} {xs rest : List (Event μ τ)}
    (h : Turning switch (some side) (xs ++ .message side m :: rest))
    (hown : ∀ m, Event.message side.other m ∉ xs) : ¬ Switched switch xs := by
  induction xs with
  | nil => simp [Switched]
  | cons e xs ih =>
    have hrest : ∀ m, Event.message side.other m ∉ xs := fun m' hm => hown m' (List.mem_cons_of_mem _ hm)
    cases e with
    | message sender m' =>
      obtain rfl | rfl := sender.eq_or side
      · simpa [Switched] using ih h hrest
      · exact absurd (List.mem_cons_self ..) (hown m')
    | act a =>
      have hnext := ih h.2 hrest
      have hfirst : ¬ switch a := fun ha => (h.1 ha).1 side rfl (speaker_append hrest)
      simp only [Switched, List.mem_cons, not_exists, not_and] at hnext ⊢
      intro b hb hmem
      obtain hmem | hmem := hmem
      · cases hmem
        exact hfirst hb
      · exact hnext b hb hmem

/-- What it sends behind one has none of its messages in front of it. -/
theorem Turning.sent {side : Side} {last : Option Side} {m : μ} {past xs rest : List (Event μ τ)}
    (h : Turning switch last (xs ++ .message side m :: rest))
    (hown : ∀ m, Event.message side.other m ∉ xs) (hswitched : Switched switch xs) :
    ∀ x ∈ sent side past xs, Switched switch x.1 := by
  induction xs generalizing last past with
  | nil => simp [Stream.sent]
  | cons e xs ih =>
    have hrest : ∀ m, Event.message side.other m ∉ xs := fun m' hm => hown m' (List.mem_cons_of_mem _ hm)
    cases e with
    | message sender m' =>
      obtain rfl | rfl := sender.eq_or side
      · have hnone := Turning.not_switched h hrest
        simp only [Switched, List.mem_cons, reduceCtorEq, false_or] at hswitched hnone
        exact absurd hswitched hnone
      · exact absurd (List.mem_cons_self ..) (hown m')
    | act a =>
      by_cases ha : switch a
      · intro x hx
        have hpast : past ++ [.act a] <+: x.1 := sent_past hx
        exact Switched.mono ⟨a, ha, by simp⟩ hpast
      · have hbehind : Switched switch xs := by
          obtain ⟨b, hb, hmem⟩ := hswitched
          cases hmem with
          | head => exact absurd hb ha
          | tail _ hmem => exact ⟨b, hb, hmem⟩
        exact ih h.2 hrest hbehind

theorem Turning.drop {last : Option Side} {xs ys : List (Event μ τ)}
    (h : Turning switch last (xs ++ ys)) :
    ∃ last', Turning switch last' ys := by
  induction xs generalizing last with
  | nil => exact ⟨last, h⟩
  | cons e xs ih =>
    cases e with
    | message sender m => exact ih h
    | act a => exact ih h.2

theorem Turning.once {last : Option Side} {a : τ} {xs rest : List (Event μ τ)}
    (h : Turning switch last (xs ++ .act a :: rest)) (ha : switch a) : ¬ Switched switch xs := by
  induction xs generalizing last with
  | nil => simp [Switched]
  | cons e xs ih =>
    cases e with
    | message sender m => simpa [Switched] using ih h
    | act b =>
      have hbehind := ih h.2
      have hfirst : ¬ switch b := fun hb => (h.1 hb).2 ⟨a, ha, by simp⟩
      simp only [Switched, List.mem_cons, not_exists, not_and] at hbehind ⊢
      intro c hc hmem
      obtain hmem | hmem := hmem
      · cases hmem
        exact hfirst hc
      · exact hbehind c hc hmem

namespace Following

/-- A party that switches has received all that was sent before. -/
theorem switches (h : Following script parties queue) {side : Side} {a : τ} {rest : List (Event μ τ)}
    (hdue : (parties side).due = .act a :: rest) (ha : switch a) :
    ∀ x ∈ queue side.other, Switched switch x.1 := by
  intro x hx
  obtain ⟨ahead, h⟩ | ⟨ahead, h⟩ := h.leads hdue
  · rw [h.empty] at hx
    cases hx
  · rw [h.queued, Side.other_other] at hx
    have hpast : (parties side).past ++ [.act a] <+: x.1 := sent_past hx
    exact Switched.mono ⟨a, ha, by simp⟩ hpast

/-- A party that sends, and has switched when the other has not, has nothing else in flight. -/
theorem sends_switched (h : Following script parties queue) (hturning : Turning switch none script)
    {side : Side} {m : μ} {rest : List (Event μ τ)}
    (hdue : (parties side).due = .message side m :: rest)
    (hswitched : Switched switch (parties side).past)
    (hother : ¬ Switched switch (parties side.other).past) :
    ∀ x ∈ queue side, Switched switch x.1 := by
  obtain ⟨ahead, h⟩ | ⟨ahead, h⟩ := h.leads hdue
  · rw [h.queued]
    rw [h.between, switched_append] at hswitched
    have hscript := h.scripted side.other
    rw [h.due, hdue] at hscript
    rw [← hscript] at hturning
    obtain ⟨last, hrest⟩ := hturning.drop
    exact hrest.sent h.own (hswitched.resolve_left hother)
  · have hown := h.own m
    rw [Side.other_other] at hown
    exact absurd (List.mem_cons_self ..) hown

/-- The other has not switched without it. -/
theorem sends_unswitched (h : Following script parties queue) {side : Side} {m : μ}
    {rest : List (Event μ τ)} (hdue : (parties side).due = .message side m :: rest)
    (hswitched : ¬ Switched switch (parties side).past) :
    ¬ Switched switch (parties side.other).past := by
  obtain ⟨ahead, h⟩ | ⟨ahead, h⟩ := h.leads hdue
  · rw [h.between, switched_append] at hswitched
    exact fun hother => hswitched (.inl hother)
  · have hown := h.own m
    rw [Side.other_other] at hown
    exact absurd (List.mem_cons_self ..) hown

theorem switches_once (h : Following script parties queue) (hturning : Turning switch none script)
    {side : Side} {a : τ} {rest : List (Event μ τ)} (hdue : (parties side).due = .act a :: rest)
    (ha : switch a) : ¬ Switched switch (parties side).past := by
  obtain ⟨leader, ahead, h⟩ := h
  have hscript := h.scripted side
  rw [hdue] at hscript
  rw [← hscript] at hturning
  exact hturning.once ha

end Following

end Switch

end Choreography

end Protocraft.Stream
