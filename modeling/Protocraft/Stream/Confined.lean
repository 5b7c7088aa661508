import Protocraft.Stream.Program

/-! Readers that may fail.

Of a transport that fails now and then it can still be said where it stands: a call hands over the
bytes that it takes, and one that fails takes none (`Advances`). A bounded reader on top of it does
not get behind its bound, whatever is called (`Advances.confined`), and a program that succeeds has
read what it would have read on the bytes themselves (`Program.Strict.run_tracked`). -/
namespace Protocraft.Stream

variable {ρ : Type}

/-- A fill takes nothing, and consuming takes at most what it is told. -/
structure Advances [BufRead ρ] (R : ρ → Bytes → Prop) : Prop extends Tracks R where
  fill : ∀ {r c}, R r c → R (BufRead.fillBuf r : Except IoError Bytes × ρ).2 c
  consume : ∀ {r c} k, R r c → ∃ j ≤ k, R (BufRead.consume k r) (c.drop j)

section Read
variable [Read ρ] {R : ρ → Bytes → Prop}

theorem Tracks.take (h : Tracks R) : Tracks fun t : Take ρ => R t.inner where
  ok := by
    intro t c n bs t' ht hread
    by_cases hlimit : t.limit = 0
    · rw [Take.read_zero hlimit] at hread
      cases hread
      exact ⟨c, rfl, Nat.zero_le _, ht⟩
    · rcases hinner : Read.read (min n t.limit) t.inner with ⟨e | bytes, r⟩
      · rw [Take.read_error hlimit hinner] at hread
        cases hread
      · rw [Take.read_ok hlimit hinner] at hread
        cases hread
        obtain ⟨c', hc, hn, hr⟩ := h.ok ht hinner
        exact ⟨c', hc, by omega, hr⟩
  error := by
    intro t c n e t' ht hread
    by_cases hlimit : t.limit = 0
    · rw [Take.read_zero hlimit] at hread
      cases hread
    · rcases hinner : Read.read (min n t.limit) t.inner with ⟨e | bytes, r⟩
      · rw [Take.read_error hlimit hinner] at hread
        cases hread
        exact h.error ht hinner
      · rw [Take.read_ok hlimit hinner] at hread
        cases hread

theorem Tracks.capped (h : Tracks R) (rest : Bytes) : Tracks (Capped R rest) where
  ok := by
    intro t c n bs t' ht hread
    obtain ⟨hr, hle, hshort⟩ := ht
    by_cases hlimit : t.limit = 0
    · rw [Take.read_zero hlimit] at hread
      cases hread
      exact ⟨c, rfl, Nat.zero_le _, hr, hle, hshort⟩
    · rcases hinner : Read.read (min n t.limit) t.inner with ⟨e | bytes, r⟩
      · rw [Take.read_error hlimit hinner] at hread
        cases hread
      · rw [Take.read_ok hlimit hinner] at hread
        cases hread
        obtain ⟨c', hc, hn, hr'⟩ := h.ok hr hinner
        have hwithin : bs.length ≤ c.length := by
          by_cases hlt : c.length < t.limit
          · have hlength := congrArg List.length hc
            rw [hshort hlt, List.append_nil, List.length_append] at hlength
            omega
          · omega
        obtain ⟨c'', rfl, rfl⟩ := split_within hc hwithin
        rw [List.length_append] at hle hshort hwithin
        refine ⟨c'', rfl, by omega, hr', ?_, ?_⟩
        · dsimp only
          omega
        · intro hlt
          dsimp only at hlt
          exact hshort (by omega)
  error := by
    intro t c n e t' ht hread
    obtain ⟨hr, hle, hshort⟩ := ht
    by_cases hlimit : t.limit = 0
    · rw [Take.read_zero hlimit] at hread
      cases hread
    · rcases hinner : Read.read (min n t.limit) t.inner with ⟨e | bytes, r⟩
      · rw [Take.read_error hlimit hinner] at hread
        cases hread
        exact ⟨h.error hr hinner, hle, hshort⟩
      · rw [Take.read_ok hlimit hinner] at hread
        cases hread

theorem Tracks.buffered (h : Tracks R) : Advances (Buffered R) where
  ok := by
    intro b c n bs b' hb hread
    obtain ⟨hcap, behind, hr, rfl⟩ := hb
    change BufReader.read n b = _ at hread
    rw [BufReader.read] at hread
    split at hread
    next hby =>
      rcases hinner : Read.read n b.inner with ⟨e | bytes, r⟩ <;> rw [hinner] at hread <;> cases hread
      obtain ⟨c', rfl, hn, hr'⟩ := h.ok hr hinner
      exact ⟨c', by rw [hby.1, List.nil_append], hn, hcap, c', hr', rfl⟩
    next =>
      by_cases hempty : b.buffer = []
      · rcases hinner : Read.read b.capacity b.inner with ⟨e | bytes, r⟩
        · rw [BufReader.fillBuf, if_pos hempty, hinner] at hread
          cases hread
        · rw [BufReader.fillBuf, if_pos hempty, hinner] at hread
          cases hread
          obtain ⟨c', rfl, -, hr'⟩ := h.ok hr hinner
          refine ⟨bytes.drop n ++ c', ?_, List.length_take_le n bytes, hcap, c', hr', rfl⟩
          rw [hempty, List.nil_append, ← List.append_assoc, List.take_append_drop]
      · rw [BufReader.fillBuf, if_neg hempty] at hread
        cases hread
        refine ⟨b.buffer.drop n ++ behind, ?_, List.length_take_le n _, hcap, behind, hr, rfl⟩
        rw [← List.append_assoc, List.take_append_drop]
  error := by
    intro b c n e b' hb hread
    obtain ⟨hcap, behind, hr, rfl⟩ := hb
    change BufReader.read n b = _ at hread
    rw [BufReader.read] at hread
    split at hread
    next hby =>
      rcases hinner : Read.read n b.inner with ⟨e | bytes, r⟩ <;> rw [hinner] at hread <;> cases hread
      exact ⟨hcap, behind, h.error hr hinner, by rw [hby.1]⟩
    next =>
      by_cases hempty : b.buffer = []
      · rcases hinner : Read.read b.capacity b.inner with ⟨e | bytes, r⟩
        · rw [BufReader.fillBuf, if_pos hempty, hinner] at hread
          cases hread
          exact ⟨hcap, behind, h.error hr hinner, by rw [hempty]⟩
        · rw [BufReader.fillBuf, if_pos hempty, hinner] at hread
          cases hread
      · rw [BufReader.fillBuf, if_neg hempty] at hread
        cases hread
  fill := by
    intro b c hb
    obtain ⟨hcap, behind, hr, rfl⟩ := hb
    show Buffered R (BufReader.fillBuf b).2 _
    rw [BufReader.fillBuf]
    split
    next hempty =>
      rcases hinner : Read.read b.capacity b.inner with ⟨e | bytes, r⟩
      · exact ⟨hcap, behind, h.error hr hinner, by rw [hempty]⟩
      · obtain ⟨c', rfl, -, hr'⟩ := h.ok hr hinner
        exact ⟨hcap, c', hr', by rw [hempty, List.nil_append]⟩
    next => exact ⟨hcap, behind, hr, rfl⟩
  consume := by
    intro b c k hb
    obtain ⟨hcap, behind, hr, rfl⟩ := hb
    refine ⟨min k b.buffer.length, Nat.min_le_left .., hcap, behind, hr, ?_⟩
    rw [List.drop_append_of_le_length (Nat.min_le_right ..)]
    have hdrop : b.buffer.drop (min k b.buffer.length) = b.buffer.drop k := by
      by_cases hk : k ≤ b.buffer.length
      · rw [Nat.min_eq_left hk]
      · rw [Nat.min_eq_right (by omega), List.drop_length, List.drop_eq_nil_of_le (by omega)]
    rw [hdrop]
    rfl

/-! ### The loops -/

theorem Tracks.readExact (h : Tracks R) {n : Nat} {r r' : ρ} {c bs : Bytes} (hr : R r c)
    (hok : Stream.readExact n r = (.ok bs, r')) : ∃ c', exactly n c = (.ok bs, c') ∧ R r' c' := by
  have hloop : ∀ turns n {r r' : ρ} {c bs : Bytes}, R r c → readExactLoop turns n r = (.ok bs, r') →
      ∃ c', c = bs ++ c' ∧ bs.length = n ∧ R r' c' := by
    intro turns
    induction turns with
    | zero =>
      intro n r r' c bs hr hok
      cases n with
      | zero =>
        cases hok
        exact ⟨c, rfl, rfl, hr⟩
      | succ n => cases hok
    | succ turns ih =>
      intro n r r' c bs hr hok
      cases n with
      | zero =>
        cases hok
        exact ⟨c, rfl, rfl, hr⟩
      | succ n =>
        obtain ⟨bytes, r₁, hread, hrest⟩ := ok_of_bind hok
        obtain ⟨c₁, rfl, hlen, hr₁⟩ := h.ok hr hread
        split at hrest
        · cases hrest
        · obtain ⟨more, r₂, hmore, hpure⟩ := ok_of_bind hrest
          cases hpure
          obtain ⟨c', rfl, hrest', hr'⟩ := ih _ hr₁ hmore
          exact ⟨c', (List.append_assoc ..).symm, by rw [List.length_append]; omega, hr'⟩
  obtain ⟨c', rfl, rfl, hr'⟩ := hloop n n hr hok
  exact ⟨c', exactly_append bs c', hr'⟩

/-- A single byte is there, or nothing was taken. -/
theorem Tracks.readByte (h : Tracks R) {r : ρ} {c : Bytes} (hr : R r c) :
    (∃ e r', Stream.readExact 1 r = (.error e, r') ∧ R r' c) ∨
    ∃ b c' r', c = b :: c' ∧ Stream.readExact 1 r = (.ok [b], r') ∧ R r' c' := by
  rcases hread : Read.read 1 r with ⟨e | bytes, r₁⟩
  · exact .inl ⟨e, r₁, bind_error hread, h.error hr hread⟩
  · obtain ⟨c', rfl, hlen, hr₁⟩ := h.ok hr hread
    cases bytes with
    | nil => exact .inl ⟨failedToFill, r₁, bind_ok hread, hr₁⟩
    | cons b bytes =>
      obtain rfl : bytes = [] := List.length_eq_zero_iff.mp (by simpa using hlen)
      exact .inr ⟨b, c', r₁, rfl, bind_ok hread, hr₁⟩

theorem Tracks.copyLoop (h : Tracks R) {turns k : Nat} {r r' : ρ} {c : Bytes} (hr : R r c)
    (hok : Stream.copyLoop turns r = (.ok k, r')) : k ≤ c.length ∧ R r' (c.drop k) := by
  induction turns generalizing k r c with
  | zero =>
    cases hok
    exact ⟨Nat.zero_le _, hr⟩
  | succ turns ih =>
    obtain ⟨bytes, r₁, hread, hrest⟩ := ok_of_bind hok
    obtain ⟨c₁, rfl, -, hr₁⟩ := h.ok hr hread
    split at hrest
    next hempty =>
      cases hrest
      subst hempty
      exact ⟨Nat.zero_le _, hr₁⟩
    next =>
      obtain ⟨more, r₂, hmore, hpure⟩ := ok_of_bind hrest
      cases hpure
      obtain ⟨hle, hr'⟩ := ih hr₁ hmore
      refine ⟨by rw [List.length_append]; omega, ?_⟩
      rwa [List.drop_length_add_append]

theorem Tracks.discard (h : Tracks R) {n : Nat} {r r' : ρ} {c : Bytes} (hr : R r c)
    (hok : Stream.discard n r = (.ok (), r')) : ∃ c', skipped n c = (.ok (), c') ∧ R r' c' := by
  rw [Stream.discard] at hok
  split at hok
  next hzero =>
    cases hok
    subst hzero
    exact ⟨c, by simp [skipped], hr⟩
  next =>
    obtain ⟨k, r₁, hcopy, hrest⟩ := ok_of_bind hok
    obtain ⟨t, hcopied, rfl⟩ := ok_of_borrowing hcopy
    obtain ⟨hle, hleft⟩ := h.take.copyLoop (show R (⟨r, n⟩ : Take ρ).inner c from hr) hcopied
    split at hrest
    next heq =>
      cases hrest
      subst heq
      exact ⟨c.drop k, by rw [skipped, if_pos hle], hleft⟩
    next => cases hrest

/-- A program that goes on only where its calls succeed reads what is there, if it succeeds. -/
theorem Program.Strict.run_tracked {ε β α : Type} (h : Tracks R) {rem : ρ → β} {remb : Bytes → β}
    (hrem : ∀ {r c}, R r c → rem r = remb c) {p : Program ε β α} (hp : p.Strict) {r r' : ρ}
    {c : Bytes} {a : α} (hr : R r c) (hok : p.run rem r = (.ok a, r')) :
    ∃ c', p.eval remb c = (.ok a, c') ∧ R r' c' := by
  induction hp generalizing r c with
  | done result =>
    cases hok
    exact ⟨c, rfl, hr⟩
  | @readExact n k failed _ ih =>
    simp only [Program.run] at hok
    rcases hreply : Stream.readExact n r with ⟨e | bytes, r₁⟩
    · obtain ⟨e', he⟩ := failed e
      rw [hreply, he] at hok
      cases hok
    · rw [hreply] at hok
      obtain ⟨c₁, hexactly, hr₁⟩ := h.readExact hr hreply
      obtain ⟨c', heval, hr'⟩ := ih bytes hr₁ hok
      exact ⟨c', by rw [Program.eval, hexactly]; exact heval, hr'⟩
  | @discard n k failed _ ih =>
    simp only [Program.run] at hok
    rcases hreply : Stream.discard n r with ⟨e | _, r₁⟩
    · obtain ⟨e', he⟩ := failed e
      rw [hreply, he] at hok
      cases hok
    · rw [hreply] at hok
      obtain ⟨c₁, hskipped, hr₁⟩ := h.discard hr hreply
      obtain ⟨c', heval, hr'⟩ := ih hr₁ hok
      exact ⟨c', by rw [Program.eval, hskipped]; exact heval, hr'⟩
  | remaining _ ih =>
    simp only [Program.run, hrem hr] at hok
    exact ih _ hr hok

/-! ### How much a call takes -/

section Takes
variable {ε ε' α α' : Type}

omit [Read ρ] in
/-- Whatever comes of the call, it takes no more than `k` bytes. -/
def Takes (R : ρ → Bytes → Prop) (k : Nat) (m : Action ε ρ α) : Prop :=
  ∀ ⦃r c⦄, R r c → ∃ left, left <:+ c ∧ c.length ≤ left.length + k ∧ R (m r).2 left

omit [Read ρ] in
theorem Takes.mono {k k' : Nat} {m : Action ε ρ α} (h : Takes R k m) (hle : k ≤ k') : Takes R k' m := by
  intro r c hr
  obtain ⟨left, hleft, hk, hr'⟩ := h hr
  exact ⟨left, hleft, by omega, hr'⟩

omit [Read ρ] in
theorem takes_pure (a : α) : Takes R 0 (pure a : Action ε ρ α) :=
  fun _ c hr => ⟨c, List.suffix_refl c, Nat.le_refl _, hr⟩

omit [Read ρ] in
theorem takes_throw (e : ε) : Takes R 0 (throw e : Action ε ρ α) :=
  fun _ c hr => ⟨c, List.suffix_refl c, Nat.le_refl _, hr⟩

omit [Read ρ] in
theorem Takes.bind {k j : Nat} {m : Action ε ρ α} {f : α → Action ε ρ α'} (hm : Takes R k m)
    (hf : ∀ a, Takes R j (f a)) : Takes R (k + j) (m >>= f) := by
  intro r c hr
  obtain ⟨left, hleft, hk, hr₁⟩ := hm hr
  rcases hrun : m r with ⟨e | a, r₁⟩ <;> rw [hrun] at hr₁
  · refine ⟨left, hleft, by omega, ?_⟩
    rw [bind_error hrun]
    exact hr₁
  · obtain ⟨left', hleft', hj, hr₂⟩ := hf a hr₁
    refine ⟨left', hleft'.trans hleft, by omega, ?_⟩
    rw [bind_ok hrun]
    exact hr₂

omit [Read ρ] in
theorem Takes.mapError {k : Nat} {m : Action ε ρ α} (h : Takes R k m) (f : ε → ε') :
    Takes R k (Stream.mapError f m) :=
  fun _ _ hr => h hr

theorem Tracks.readExact_takes (h : Tracks R) (n : Nat) : Takes R n (Stream.readExact n) := by
  have hloop : ∀ turns n, Takes R n (readExactLoop turns n : Action IoError ρ Bytes) := by
    intro turns
    induction turns with
    | zero =>
      intro n
      cases n with
      | zero => exact takes_pure []
      | succ n => exact (takes_throw failedToFill).mono (Nat.zero_le _)
    | succ turns ih =>
      intro n
      cases n with
      | zero => exact takes_pure []
      | succ n =>
        intro r c hr
        rw [readExactLoop, bind_apply]
        rcases hread : Read.read (n + 1) r with ⟨e | bytes, r₁⟩
        · exact ⟨c, List.suffix_refl c, by omega, h.error hr hread⟩
        · obtain ⟨c₁, rfl, hlen, hr₁⟩ := h.ok hr hread
          dsimp only
          split
          · refine ⟨c₁, List.suffix_append _ _, ?_, hr₁⟩
            rw [List.length_append]
            omega
          · obtain ⟨left, hleft, hk, hr'⟩ :=
              (ih (n + 1 - bytes.length)).bind (fun rest => takes_pure (bytes ++ rest)) hr₁
            refine ⟨left, hleft.trans (List.suffix_append _ _), ?_, hr'⟩
            rw [List.length_append]
            omega
  exact hloop n n

/-- The parts of a program in a row. -/
theorem Program.takes_bind {β : Type} {rem : ρ → β} {k j : Nat} {p : Program ε β α}
    {f : α → Program ε β α'} (hp : Takes R k (p.run rem)) (hf : ∀ a, Takes R j ((f a).run rem)) :
    Takes R (k + j) ((p >>= f).run rem) := by
  have hrun : (p >>= f).run rem = (p.run rem >>= fun a => (f a).run rem : Action ε ρ α') := by
    funext r
    show (p.bind f).run rem r = _
    rw [run_bind, bind_apply]
    rcases p.run rem r with ⟨_ | _, _⟩ <;> rfl
  rw [hrun]
  exact hp.bind hf

end Takes

end Read

/-! ### Within a bound -/

section Confined
variable [BufRead ρ] {R : ρ → Bytes → Prop}

/-- The reader stands somewhere inside, and its bound ends there. -/
def Confined (R : ρ → Bytes → Prop) (inside behind : Bytes) (t : Take ρ) : Prop :=
  ∃ left, left <:+ inside ∧ R t.inner (left ++ behind) ∧ (t.limit ≤ left.length ∨ behind = [])

theorem Advances.confined (h : Advances R) (inside behind : Bytes) :
    Kept (Confined R inside behind) where
  read := by
    intro n t ht
    obtain ⟨left, hleft, hr, hwithin⟩ := ht
    by_cases hlimit : t.limit = 0
    · rw [Take.read_zero hlimit]
      exact ⟨left, hleft, hr, hwithin⟩
    · rcases hinner : Read.read (min n t.limit) t.inner with ⟨e | bytes, r⟩
      · rw [Take.read_error hlimit hinner]
        exact ⟨left, hleft, h.error hr hinner, hwithin⟩
      · rw [Take.read_ok hlimit hinner]
        obtain ⟨c, hc, hn, hr'⟩ := h.ok hr hinner
        have hle : bytes.length ≤ left.length := by
          obtain hwithin | rfl := hwithin
          · omega
          · have hlength := congrArg List.length hc
            rw [List.append_nil, List.length_append] at hlength
            omega
        obtain ⟨left', rfl, rfl⟩ := split_within hc hle
        refine ⟨left', (List.suffix_append bytes left').trans hleft, hr',
          hwithin.imp_left fun hwithin => ?_⟩
        rw [List.length_append] at hwithin
        dsimp only
        omega
  fill := by
    intro t ht
    obtain ⟨left, hleft, hr, hwithin⟩ := ht
    by_cases hlimit : t.limit = 0
    · rw [Take.fillBuf_zero hlimit]
      exact ⟨left, hleft, hr, hwithin⟩
    · have hfilled := h.fill hr
      show Confined R inside behind (Take.fillBuf t).2
      rw [Take.fillBuf, if_neg hlimit]
      rcases hinner : BufRead.fillBuf t.inner with ⟨e | buf, r⟩ <;> rw [hinner] at hfilled <;>
        exact ⟨left, hleft, hfilled, hwithin⟩
  consume := by
    intro t k ht
    obtain ⟨left, hleft, hr, hwithin⟩ := ht
    obtain ⟨j, hj, hr'⟩ := h.consume (min k t.limit) hr
    obtain hwithin | rfl := hwithin
    · rw [List.drop_append_of_le_length (by omega)] at hr'
      refine ⟨left.drop j, (List.drop_suffix j left).trans hleft, hr', .inl ?_⟩
      show t.limit - min k t.limit ≤ _
      rw [List.length_drop]
      omega
    · rw [List.append_nil] at hr'
      exact ⟨left.drop j, (List.drop_suffix j left).trans hleft, by rwa [List.append_nil], .inr rfl⟩

end Confined

end Protocraft.Stream
