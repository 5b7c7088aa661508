import Protocraft.Stream.Io

/-! Loops without a bound.

A loop takes turns until one exits, which may be never: `Turn.loop` takes a number of
turns, and `Turn.Exits` says that some number suffices. `Turn.loop_exit` is the
invariant rule, `Turn.loop_returns` the variant rule. More turns make no difference to a
call that has come to its end (`Steady`). -/
namespace Protocraft.Stream

inductive Turn (σ ρ : Type) where
  | again (state : σ)
  | exit (reply : ρ) (state : σ)

namespace Turn
variable {σ ρ : Type}

/-- At most `turns` turns; `none` when they do not suffice. -/
def loop (turn : σ → Turn σ ρ) : Nat → σ → Option (ρ × σ)
  | 0, _ => none
  | turns + 1, s => match turn s with
    | again s' => loop turn turns s'
    | exit reply s' => some (reply, s')

/-- The loop, entered in `s`, exits with this reply and state. -/
def Exits (turn : σ → Turn σ ρ) (s : σ) (reply : ρ) (s' : σ) : Prop :=
  ∃ turns, loop turn turns s = some (reply, s')

theorem exits_at {turn : σ → Turn σ ρ} {s s' : σ} {reply : ρ} (hturn : turn s = .exit reply s') :
    Exits turn s reply s' :=
  ⟨1, by rw [loop, hturn]⟩

theorem Exits.first {turn : σ → Turn σ ρ} {s s₁ s' : σ} {reply : ρ} (hturn : turn s = .again s₁)
    (h : Exits turn s₁ reply s') : Exits turn s reply s' := by
  obtain ⟨turns, h⟩ := h
  exact ⟨turns + 1, by rw [loop, hturn]; exact h⟩

/-- What holds on entry and survives each turn holds at the exit. -/
theorem loop_exit {turn : σ → Turn σ ρ} {I : σ → Prop} {Q : ρ → σ → Prop}
    (again : ∀ {s s'}, I s → turn s = .again s' → I s')
    (exit : ∀ {s reply s'}, I s → turn s = .exit reply s' → Q reply s') {s s' : σ} {reply : ρ}
    (hs : I s) (h : Exits turn s reply s') : Q reply s' := by
  obtain ⟨turns, h⟩ := h
  induction turns generalizing s with
  | zero => cases h
  | succ turns ih =>
    rw [loop] at h
    split at h
    next s₁ hturn => exact ih (again hs hturn) h
    next reply₁ s₁ hturn =>
      cases h
      exact exit hs hturn

/-- A turn goes on in `I`, or exits in `Q`. -/
abbrev Leads (I : σ → Prop) (Q : ρ → σ → Prop) : Turn σ ρ → Prop
  | again s => I s
  | exit reply s => Q reply s

theorem Leads.mono {I I' : σ → Prop} {Q Q' : ρ → σ → Prop} {t : Turn σ ρ} (h : t.Leads I Q)
    (again : ∀ s, I s → I' s) (exit : ∀ reply s, Q reply s → Q' reply s) : t.Leads I' Q' := by
  cases t with
  | again s => exact again s h
  | exit reply s => exact exit reply s h

theorem Exits.spec {turn : σ → Turn σ ρ} {I : σ → Prop} {Q : ρ → σ → Prop}
    (step : ∀ {s}, I s → (turn s).Leads I Q) {s s' : σ} {reply : ρ} (hs : I s)
    (h : Exits turn s reply s') : Q reply s' := by
  refine loop_exit (I := I) (Q := Q) ?_ ?_ hs h
  · intro t t' ht hturn
    have hstep := step ht
    rwa [hturn] at hstep
  · intro t reply t' ht hturn
    have hstep := step ht
    rwa [hturn] at hstep

/-- The state a turn leads to. -/
def state : Turn σ ρ → σ
  | again s => s
  | exit _ s => s

/-- What the turns keep the loop keeps. -/
theorem Exits.keeps {turn : σ → Turn σ ρ} {I : σ → Prop} (h : ∀ {s}, I s → I (turn s).state) {s s' : σ}
    {reply : ρ} (hs : I s) (hexits : Exits turn s reply s') : I s' := by
  refine loop_exit (I := I) (Q := fun _ => I) ?_ ?_ hs hexits
  · intro t t' ht hagain
    have hkept := h ht
    rwa [hagain] at hkept
  · intro t reply t' ht hexit
    have hkept := h ht
    rwa [hexit] at hkept

/-- A loop that from wherever it is goes on to such a state never exits. -/
theorem loops {turn : σ → Turn σ ρ} {I : σ → Prop} (again : ∀ s, I s → ∃ s', turn s = .again s' ∧ I s')
    {s : σ} (hs : I s) : ¬ ∃ reply s', Exits turn s reply s' := by
  intro h'
  obtain ⟨reply, s', h⟩ := h'
  refine loop_exit (I := I) (Q := fun _ _ => False) ?_ ?_ hs h
  · intro t t' ht hturn
    obtain ⟨t₁, hagain, ht₁⟩ := again t ht
    cases hagain.symm.trans hturn
    exact ht₁
  · intro t reply t' ht hturn
    obtain ⟨t₁, hagain, -⟩ := again t ht
    cases hagain.symm.trans hturn

/-- A loop whose turns each go down a well-founded order exits. -/
theorem loop_returns_of_wf {turn : σ → Turn σ ρ} {I : σ → Prop} {less : σ → σ → Prop}
    (hwf : WellFounded less) (again : ∀ {s s'}, I s → turn s = .again s' → I s' ∧ less s' s) {s : σ}
    (hs : I s) : ∃ reply s', Exits turn s reply s' := by
  induction s using hwf.induction with
  | _ s ih =>
    rcases hturn : turn s with s₁ | ⟨reply, s₁⟩
    · obtain ⟨hs₁, hless⟩ := again hs hturn
      obtain ⟨reply, s', hrest⟩ := ih s₁ hless hs₁
      exact ⟨reply, s', hrest.first hturn⟩
    · exact ⟨reply, s₁, exits_at hturn⟩

/-- A loop whose turns each make less of something exits. -/
theorem loop_returns {turn : σ → Turn σ ρ} {I : σ → Prop} (measure : σ → Nat)
    (again : ∀ {s s'}, I s → turn s = .again s' → I s' ∧ measure s' < measure s) {s : σ} (hs : I s) :
    ∃ reply s', Exits turn s reply s' :=
  loop_returns_of_wf (InvImage.wf measure Nat.lt_wfRel.wf) again hs

/-- Both rules at once: a loop whose turns go down a well-founded order exits as its last turn does. -/
theorem total {turn : σ → Turn σ ρ} {I : σ → Prop} {Q : ρ → σ → Prop} {less : σ → σ → Prop}
    (hwf : WellFounded less) (step : ∀ {s}, I s → (turn s).Leads (fun s' => I s' ∧ less s' s) Q) {s : σ}
    (hs : I s) : ∃ reply s', Exits turn s reply s' ∧ Q reply s' := by
  have hagain : ∀ {s s'}, I s → turn s = .again s' → I s' ∧ less s' s := by
    intro s s' hs hturn
    have hstep := step hs
    rwa [hturn] at hstep
  obtain ⟨reply, s', hexits⟩ := loop_returns_of_wf hwf hagain hs
  refine ⟨reply, s', hexits,
    loop_exit (I := I) (Q := Q) (fun hs hturn => (hagain hs hturn).1) ?_ hs hexits⟩
  intro t reply t' ht hturn
  have hstep := step ht
  rwa [hturn] at hstep

theorem loop_mono {turn : σ → Turn σ ρ} {turns : Nat} (more : Nat) {s : σ} {result : ρ × σ}
    (h : loop turn turns s = some result) : loop turn (turns + more) s = some result := by
  induction turns generalizing s with
  | zero => cases h
  | succ turns ih =>
    rw [Nat.succ_add, loop]
    rw [loop] at h
    split at h
    · exact ih h
    · exact h

/-- The loop, entered in `s`, comes to the top of a turn in this state. -/
inductive Reaches (turn : σ → Turn σ ρ) (s : σ) : σ → Prop
  | entered : Reaches turn s s
  | again {t t' : σ} (h : Reaches turn s t) (hturn : turn t = .again t') : Reaches turn s t'

/-- What holds on entry and survives each turn holds at the top of every turn. -/
theorem Reaches.holds {turn : σ → Turn σ ρ} {I : σ → Prop}
    (again : ∀ {s s'}, I s → turn s = .again s' → I s') {s t : σ} (hs : I s) (h : Reaches turn s t) :
    I t := by
  induction h with
  | entered => exact hs
  | again _ hturn ih => exact again ih hturn

theorem Reaches.first {turn : σ → Turn σ ρ} {s s' t : σ} (hturn : turn s = .again s')
    (h : Reaches turn s' t) : Reaches turn s t := by
  induction h with
  | entered => exact .again .entered hturn
  | again _ hlast ih => exact .again ih hlast

/-- A loop exits from a turn that it comes to. -/
theorem exits_iff {turn : σ → Turn σ ρ} {s s' : σ} {reply : ρ} :
    Exits turn s reply s' ↔ ∃ t, Reaches turn s t ∧ turn t = .exit reply s' := by
  constructor
  · intro h'
    obtain ⟨turns, h⟩ := h'
    induction turns generalizing s with
    | zero => cases h
    | succ turns ih =>
      rw [loop] at h
      split at h
      next s₁ hturn =>
        obtain ⟨t, hreach, hexit⟩ := ih h
        exact ⟨t, hreach.first hturn, hexit⟩
      next reply₁ s₁ hturn =>
        cases h
        exact ⟨s, .entered, hturn⟩
  · intro h
    obtain ⟨t, hreach, hexit⟩ := h
    suffices hback : Exits turn t reply s' → Exits turn s reply s' from hback (exits_at hexit)
    clear hexit
    induction hreach with
    | entered => exact id
    | again _ hturn ih => exact fun hrest => ih (hrest.first hturn)

end Turn

/-! ### In operations -/

/-- What ends a call that may also panic, or not be through with its loops yet. -/
inductive Stop (ε : Type) where
  | error (error : ε)
  | panic
  | unfinished
  deriving DecidableEq, Repr

def Stop.map {ε ε' : Type} (f : ε → ε') : Stop ε → Stop ε'
  | error e => error (f e)
  | panic => panic
  | unfinished => unfinished

/-- A loop in an operation, which has `turns` turns to finish. -/
def Turn.run {σ ε α : Type} (turn : σ → Turn σ (Except (Stop ε) α)) (turns : Nat) :
    Action (Stop ε) σ α := fun s =>
  match loop turn turns s with
  | some (reply, s') => (reply, s')
  | none => (.error .unfinished, s)

theorem Turn.exits_of_run {σ ε α : Type} {turn : σ → Turn σ (Except (Stop ε) α)} {turns : Nat} {s s' : σ}
    {reply : Except (Stop ε) α} (h : Turn.run turn turns s = (reply, s'))
    (hdone : reply ≠ .error .unfinished) :
    Turn.Exits turn s reply s' := by
  unfold Turn.run at h
  split at h
  next reply s₁ hloop =>
    cases h
    exact ⟨turns, hloop⟩
  next =>
    cases h
    exact absurd rfl hdone

theorem Turn.run_ok {σ ε α : Type} {turn : σ → Turn σ (Except (Stop ε) α)} {turns : Nat} {s s' : σ}
    {a : α} (h : Turn.run turn turns s = (.ok a, s')) : Turn.Exits turn s (.ok a) s' :=
  Turn.exits_of_run h (by intro he; cases he)

theorem Turn.Exits.run {σ ε α : Type} {turn : σ → Turn σ (Except (Stop ε) α)} {s s' : σ}
    {reply : Except (Stop ε) α} (h : Turn.Exits turn s reply s') :
    ∃ turns, ∀ more, Turn.run turn (turns + more) s = (reply, s') := by
  obtain ⟨turns, hloop⟩ := h
  exact ⟨turns, fun more => by rw [Turn.run, Turn.loop_mono more hloop]⟩

/-- What a call comes to in some turns it comes to in more. -/
def Steady {ε σ α : Type} (m : Nat → Action (Stop ε) σ α) : Prop :=
  ∀ ⦃turns s reply s'⦄, m turns s = (reply, s') → reply ≠ .error .unfinished →
    ∀ more, m (turns + more) s = (reply, s')

namespace Steady
variable {ε ε' σ τ α β : Type}

theorem const (m : Action (Stop ε) σ α) : Steady fun _ => m := fun _ _ _ _ h _ _ => h

theorem run (turn : σ → Turn σ (Except (Stop ε) α)) : Steady (Turn.run turn) := by
  intro turns s reply s' h hdone more
  unfold Turn.run at h ⊢
  split at h
  next reply₁ s₁ hloop =>
    rw [Turn.loop_mono more hloop]
    exact h
  next =>
    cases h
    exact absurd rfl hdone

theorem bind {m : Nat → Action (Stop ε) σ α} (hm : Steady m) {f : Nat → α → Action (Stop ε) σ β}
    (hf : ∀ a, Steady fun turns => f turns a) : Steady fun turns => m turns >>= f turns := by
  intro turns s reply s' h hdone more
  dsimp only at h ⊢
  rcases hfirst : m turns s with ⟨e | a, s₁⟩
  · rw [bind_error hfirst] at h
    cases h
    rw [bind_error (hm hfirst (fun he => hdone (congrArg _ (Except.error.inj he))) more)]
  · rw [bind_ok hfirst] at h
    rw [bind_ok (hm hfirst (fun he => by cases he) more)]
    exact hf a h hdone more

theorem borrowing {enter : σ → τ} {leave : τ → σ → σ} {m : Nat → Action (Stop ε) τ α} (hm : Steady m) :
    Steady fun turns => borrowing enter leave (m turns) := by
  intro turns s reply s' h hdone more
  dsimp only at h ⊢
  rw [borrowing_apply] at h
  obtain ⟨hreply, hleft⟩ := Prod.mk.inj h
  have hcall := hm (Prod.ext hreply rfl : m turns (enter s) = (reply, _)) hdone more
  rw [borrowing_apply, hcall]
  exact Prod.ext rfl hleft

theorem mapError {m : Nat → Action (Stop ε) σ α} (hm : Steady m) (f : ε → ε') :
    Steady fun turns => mapError (Stop.map f) (m turns) := by
  intro turns s reply s' h hdone more
  dsimp only at h ⊢
  rw [mapError_apply] at h
  obtain ⟨hreply, hstate⟩ := Prod.mk.inj h
  have hfirst : (m turns s).1 ≠ .error .unfinished := by
    intro he
    rw [he] at hreply
    exact hdone hreply.symm
  have hcall := hm (Prod.ext rfl hstate : m turns s = (_, s')) hfirst more
  rw [mapError_apply, hcall]
  exact Prod.ext hreply rfl

/-- A call that comes to some end with turns enough, and to one in so many turns, comes to one. -/
theorem unique {m : Nat → Action (Stop ε) σ α} (hm : Steady m) {turns turns' : Nat} {s s₁ s₂ : σ}
    {reply₁ reply₂ : Except (Stop ε) α} (h₁ : ∀ more, m (turns + more) s = (reply₁, s₁))
    (h₂ : m turns' s = (reply₂, s₂)) (hdone : reply₂ ≠ .error .unfinished) :
    reply₁ = reply₂ ∧ s₁ = s₂ := by
  have hmore := hm h₂ hdone turns
  rw [Nat.add_comm, h₁ turns'] at hmore
  exact Prod.mk.inj hmore

end Steady

end Protocraft.Stream
