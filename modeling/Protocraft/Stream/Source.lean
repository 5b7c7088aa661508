import Protocraft.Stream.Io

/-! Readers whose bytes are known.

`R r c` says that reader state `r` still holds the bytes `c`. `Delivers` is a
reader that hands over exactly those bytes, in order and without failing, in
pieces of its own choosing; `Tracks` is one that may also fail, but hands over
nothing else. A reader may break the contract of `read` in one way that the
callers cannot see: return no byte although more are to come. Such a call leaves
it `Stalled`, and every fact about a run holds unless the run stalled.

`readExact` and `discard` then do what they do on the bytes themselves
(`exactly`, `skipped`), whatever the pieces. -/
namespace Protocraft.Stream

/-! ### What the loops do on bytes -/

def exactly (n : Nat) (c : Bytes) : Except IoError Bytes × Bytes :=
  if n ≤ c.length then (.ok (c.take n), c.drop n) else (.error failedToFill, [])

def skipped (n : Nat) (c : Bytes) : Except IoError Unit × Bytes :=
  if n ≤ c.length then (.ok (), c.drop n) else (.error eofDiscarding, [])

theorem exactly_append (bs c : Bytes) : exactly bs.length (bs ++ c) = (.ok bs, c) := by
  simp [exactly]

/-- A read too long leaves nothing. -/
theorem exactly_failed {n : Nat} {c : Bytes} {e : IoError} (h : (exactly n c).1 = .error e) :
    (exactly n c).2 = [] := by
  unfold exactly at h ⊢
  split at h
  · cases h
  · next hn => rw [if_neg hn]

theorem skipped_failed {n : Nat} {c : Bytes} {e : IoError} (h : (skipped n c).1 = .error e) :
    (skipped n c).2 = [] := by
  unfold skipped at h ⊢
  split at h
  · cases h
  · next hn => rw [if_neg hn]

/-! ### Contracts -/

section Contracts
variable {ρ : Type}

/-- While bytes are left, a read of a nonempty buffer hands over the next ones.
If it hands over none, the reader has stalled, and it does not recover. -/
structure Yields [Read ρ] (R : ρ → Bytes → Prop) (Stalled : ρ → Prop) : Prop where
  more : ∀ {r c n}, 0 < n → c ≠ [] → R r c → ∃ bs c' r', Read.read n r = (.ok bs, r') ∧
    c = bs ++ c' ∧ bs.length ≤ n ∧ R r' c' ∧ (bs = [] → Stalled r') ∧ (Stalled r → Stalled r') ∧
    (bs ≠ [] → Stalled r' → Stalled r)

/-- And with none left a read returns none, which is the end of the stream. -/
structure Delivers [Read ρ] (R : ρ → Bytes → Prop) (Stalled : ρ → Prop) : Prop
    extends Yields R Stalled where
  ended : ∀ {r n}, 0 < n → R r [] → ∃ r', Read.read n r = (.ok [], r') ∧ R r' [] ∧
    (Stalled r' ↔ Stalled r)

/-- A reader that may fail: what it hands over are the next bytes, and a failed
read has taken none of them. -/
structure Tracks [Read ρ] (R : ρ → Bytes → Prop) : Prop where
  ok : ∀ {r c n bs r'}, R r c → Read.read n r = (.ok bs, r') →
    ∃ c', c = bs ++ c' ∧ bs.length ≤ n ∧ R r' c'
  error : ∀ {r c n e r'}, R r c → Read.read n r = (.error e, r') → R r' c

/-- The buffered side of `Delivers`: a fill is the next bytes, nonempty until the
end, and consuming a part of it leaves the rest. -/
structure Fills [BufRead ρ] (R : ρ → Bytes → Prop) : Prop where
  idle : ∀ {r c}, R r c → R (BufRead.consume 0 r) c
  fill : ∀ {r c}, R r c → ∃ buf r', BufRead.fillBuf r = (.ok buf, r') ∧ R r' c ∧
    buf <+: c ∧ (c ≠ [] → buf ≠ []) ∧ ∀ k ≤ buf.length, R (BufRead.consume k r') (c.drop k)

/-- A reader with all that is left in each fill. -/
def Whole [BufRead ρ] (R : ρ → Bytes → Prop) : Prop :=
  ∀ {r c buf r'}, R r c → BufRead.fillBuf r = (.ok buf, r') → buf = c

/-- What a reader holds is certain. -/
def Determined (R : ρ → Bytes → Prop) : Prop := ∀ {r c c'}, R r c → R r c' → c = c'

/-- A reader that never stalls. -/
def Never : ρ → Prop := fun _ => False

end Contracts

/-! ### `readExact` -/

section ReadExact
variable {ρ : Type} [Read ρ] {R : ρ → Bytes → Prop} {Stalled : ρ → Prop}

/-- What a call did to a reader holding `c`: the bytes left, whether it stalled,
and, if it did not, that it did what `spec` does on `c`. -/
structure Did {α : Type} (R : ρ → Bytes → Prop) (Stalled : ρ → Prop) (r : ρ)
    (reply : α × ρ) (spec : α × Bytes) : Prop where
  left : ∃ c', R reply.2 c' ∧ (Stalled reply.2 ∨ (reply.1, c') = spec)
  stays : Stalled r → Stalled reply.2

omit [Read ρ] in
theorem Did.exact {α : Type} {r : ρ} {reply : α × ρ} {spec : α × Bytes}
    (h : Did R Stalled r reply spec) (hs : ¬ Stalled reply.2) :
    reply.1 = spec.1 ∧ R reply.2 spec.2 := by
  obtain ⟨c', hr, hst | rfl⟩ := h.left
  · exact absurd hst hs
  · exact ⟨rfl, hr⟩

theorem readExactLoop_did (h : Delivers R Stalled) (turns n : Nat) (hn : n ≤ turns) (r : ρ)
    (c : Bytes) (hr : R r c) : Did R Stalled r (readExactLoop turns n r) (exactly n c) := by
  induction turns generalizing n r c with
  | zero =>
    obtain rfl : n = 0 := by omega
    exact ⟨⟨c, hr, .inr (by simp [readExactLoop, exactly])⟩, id⟩
  | succ turns ih =>
    cases n with
    | zero => exact ⟨⟨c, hr, .inr (by simp [readExactLoop, exactly])⟩, id⟩
    | succ n =>
      unfold readExactLoop
      by_cases hc : c = []
      · subst hc
        obtain ⟨r', hread, hr', hs⟩ := h.ended (Nat.succ_pos n) hr
        rw [bind_ok hread]
        exact ⟨⟨[], hr', .inr (by simp [exactly])⟩, hs.mpr⟩
      · obtain ⟨bs, c', r', hread, rfl, hlen, hr', hnone, hstays, -⟩ := h.more (Nat.succ_pos n) hc hr
        rw [bind_ok hread]
        by_cases hbs : bs = []
        · rw [if_pos hbs]
          exact ⟨⟨c', hr', .inl (hnone hbs)⟩, hstays⟩
        · rw [if_neg hbs]
          have hpos : 0 < bs.length := List.length_pos_iff.mpr hbs
          obtain ⟨⟨c'', hleft, hdid⟩, hstays'⟩ := ih (n + 1 - bs.length) (by omega) r' c' hr'
          rw [bind_apply]
          rcases hreply : readExactLoop turns (n + 1 - bs.length) r' with ⟨_ | rest, r''⟩ <;>
            rw [hreply] at hleft hdid hstays'
          all_goals
            refine ⟨⟨c'', hleft, hdid.imp_right fun hd => ?_⟩, hstays' ∘ hstays⟩
            simp only [exactly, List.length_append] at hd ⊢
            split at hd <;> simp_all
          · omega
          · rw [if_pos (by omega), List.take_append, List.drop_append]
            simp [List.take_of_length_le hlen, List.drop_eq_nil_of_le hlen]

theorem readExact_did (h : Delivers R Stalled) (n : Nat) {r : ρ} {c : Bytes} (hr : R r c) :
    Did R Stalled r (readExact n r) (exactly n c) :=
  readExactLoop_did h n n (Nat.le_refl n) r c hr

/-- A call that stalled the reader fails, with bytes left. -/
theorem readExactLoop_stalled (h : Delivers R Stalled) (turns n : Nat) (r : ρ) (c : Bytes) (hr : R r c)
    (hs : Stalled (readExactLoop turns n r).2) :
    Stalled r ∨ ((readExactLoop turns n r).1 = .error failedToFill ∧
      ∃ c', c' ≠ [] ∧ R (readExactLoop turns n r).2 c') := by
  induction turns generalizing n r c with
  | zero => cases n <;> exact .inl hs
  | succ turns ih =>
    cases n with
    | zero => exact .inl hs
    | succ n =>
      unfold readExactLoop at hs ⊢
      by_cases hc : c = []
      · subst hc
        obtain ⟨r', hread, -, hstalled⟩ := h.ended (Nat.succ_pos n) hr
        rw [bind_ok hread] at hs
        exact .inl (hstalled.mp hs)
      · obtain ⟨bs, c', r', hread, rfl, -, hr', -, -, hback⟩ := h.more (Nat.succ_pos n) hc hr
        rw [bind_ok hread] at hs ⊢
        by_cases hbs : bs = []
        · rw [if_pos hbs]
          subst hbs
          exact .inr ⟨rfl, c', hc, hr'⟩
        · rw [if_neg hbs, bind_apply] at hs ⊢
          have hrest := ih (n + 1 - bs.length) r' c' hr'
          rcases hreply : readExactLoop turns (n + 1 - bs.length) r' with ⟨e | rest, r''⟩ <;>
            rw [hreply] at hs hrest
          · exact (hrest hs).imp_left (hback hbs)
          · rcases hrest hs with hst | ⟨he, -⟩
            · exact .inl (hback hbs hst)
            · cases he

theorem readExact_stalled (h : Delivers R Stalled) {n : Nat} {r : ρ} {c : Bytes} (hr : R r c)
    (hs : Stalled (readExact n r).2) : Stalled r ∨ ((readExact n r).1 = .error failedToFill ∧
      ∃ c', c' ≠ [] ∧ R (readExact n r).2 c') :=
  readExactLoop_stalled h n n r c hr hs

end ReadExact

/-! ### `Take` -/

section Take
variable {ρ : Type} {R : ρ → Bytes → Prop} {Stalled : ρ → Prop}

/-- A limited reader holding `c`, with `rest` behind the limit. -/
def Capped (R : ρ → Bytes → Prop) (rest : Bytes) (t : Take ρ) (c : Bytes) : Prop :=
  R t.inner (c ++ rest) ∧ c.length ≤ t.limit ∧ (c.length < t.limit → rest = [])

/-- And with the limit inside the stream. -/
def Taken (R : ρ → Bytes → Prop) (rest : Bytes) (t : Take ρ) (c : Bytes) : Prop :=
  R t.inner (c ++ rest) ∧ c.length = t.limit

theorem split_within {c rest bs c' : Bytes} (h : c ++ rest = bs ++ c') (hl : bs.length ≤ c.length) :
    ∃ c'', c = bs ++ c'' ∧ c' = c'' ++ rest := by
  obtain ⟨c'', rfl⟩ : bs <+: c :=
    List.prefix_of_prefix_length_le (List.prefix_append bs c') (h ▸ List.prefix_append c rest) hl
  exact ⟨c'', rfl, by simpa using h.symm⟩

theorem Take.read_zero [Read ρ] {t : Take ρ} (h : t.limit = 0) (n : Nat) :
    Read.read n t = (.ok [], t) := by
  simp [Read.read, Take.read, h]

theorem Take.read_ok [Read ρ] {t : Take ρ} (h : t.limit ≠ 0) {n : Nat} {bs : Bytes} {r' : ρ}
    (hread : Read.read (min n t.limit) t.inner = (.ok bs, r')) :
    Read.read n t = (.ok bs, ⟨r', t.limit - bs.length⟩) := by
  simp [Read.read, Take.read, h, hread]

theorem Take.read_error [Read ρ] {t : Take ρ} (h : t.limit ≠ 0) {n : Nat} {e : IoError} {r' : ρ}
    (hread : Read.read (min n t.limit) t.inner = (.error e, r')) :
    Read.read n t = (.error e, ⟨r', t.limit⟩) := by
  simp [Read.read, Take.read, h, hread]

/-- A read of a limited reader is one of the inner reader, within the limit. -/
theorem Take.more [Read ρ] (h : Yields R Stalled) {rest : Bytes} {t : Take ρ} {c : Bytes} {n : Nat}
    (hn : 0 < n) (hc : c ≠ []) (hr : Capped R rest t c) : ∃ bs c' r',
      Read.read n t = (.ok bs, ⟨r', t.limit - bs.length⟩) ∧ c = bs ++ c' ∧ bs.length ≤ n ∧
        R r' (c' ++ rest) ∧ (bs = [] → Stalled r') ∧ (Stalled t.inner → Stalled r') ∧
        (bs ≠ [] → Stalled r' → Stalled t.inner) := by
  obtain ⟨hinner, hlimit, hrest⟩ := hr
  have hpos : 0 < c.length := List.length_pos_iff.mpr hc
  obtain ⟨bs, c', r', hread, happ, hlen, hr', hnone, hstays, hback⟩ :=
    h.more (n := min n t.limit) (by omega) (by simp [hc]) hinner
  have hwithin : bs.length ≤ c.length := by
    by_cases hlt : c.length < t.limit
    · have := congrArg List.length happ
      rw [hrest hlt, List.append_nil, List.length_append] at this
      omega
    · omega
  obtain ⟨c'', rfl, rfl⟩ := split_within happ hwithin
  exact ⟨bs, c'', r', Take.read_ok (by omega) hread, rfl, by omega, hr', hnone, hstays, hback⟩

/-- A limit anywhere in a stream, or behind its end. -/
theorem Delivers.take [Read ρ] (h : Delivers R Stalled) (rest : Bytes) :
    Delivers (Capped R rest) (fun t : Take ρ => Stalled t.inner) where
  more := by
    intro t c n hn hc hr
    obtain ⟨bs, c', r', hread, rfl, hlen, hr', hmore⟩ := Take.more h.toYields hn hc hr
    obtain ⟨-, hlimit, hrest⟩ := hr
    rw [List.length_append] at hlimit hrest
    refine ⟨bs, c', _, hread, rfl, hlen, ⟨hr', by simp only; omega, fun hlt => hrest ?_⟩, hmore⟩
    simp only at hlt
    omega
  ended := by
    intro t n hn hr
    obtain ⟨hinner, -, hrest⟩ := hr
    by_cases hlimit : t.limit = 0
    · exact ⟨t, Take.read_zero hlimit n, ⟨hinner, Nat.zero_le _, hrest⟩, Iff.rfl⟩
    · obtain rfl : rest = [] := hrest (by simp; omega)
      obtain ⟨r', hread, hr', hs⟩ := h.ended (n := min n t.limit) (by omega) hinner
      exact ⟨_, Take.read_ok hlimit hread, ⟨hr', Nat.zero_le _, fun _ => rfl⟩, hs⟩

/-- Behind a limit that lies inside the stream the reader ends at the limit,
whatever the inner reader would do there. -/
theorem Yields.take [Read ρ] (h : Yields R Stalled) (rest : Bytes) :
    Delivers (Taken R rest) (fun t : Take ρ => Stalled t.inner) where
  more := by
    intro t c n hn hc hr
    obtain ⟨hinner, hlimit⟩ := hr
    obtain ⟨bs, c', r', hread, rfl, hlen, hr', hmore⟩ :=
      Take.more h hn hc ⟨hinner, by omega, fun hlt => absurd hlimit (Nat.ne_of_lt hlt)⟩
    rw [List.length_append] at hlimit
    exact ⟨bs, c', _, hread, rfl, hlen, ⟨hr', by simp only; omega⟩, hmore⟩
  ended := by
    intro t n _ hr
    exact ⟨t, Take.read_zero hr.2.symm n, hr, Iff.rfl⟩

/-- A limited reader with its limit `k` bytes behind the end of `c`. -/
def Overrun (R : ρ → Bytes → Prop) (rest : Bytes) (k : Nat) (t : Take ρ) (c : Bytes) : Prop :=
  R t.inner (c ++ rest) ∧ t.limit = c.length + k ∧ (0 < k → rest = [])

theorem Delivers.overrun [Read ρ] (h : Delivers R Stalled) (rest : Bytes) (k : Nat) :
    Delivers (Overrun R rest k) (fun t : Take ρ => Stalled t.inner) where
  more := by
    intro t c n hn hc hr
    obtain ⟨hinner, hlimit, hrest⟩ := hr
    obtain ⟨bs, c', r', hread, rfl, hlen, hr', hmore⟩ :=
      Take.more h.toYields hn hc ⟨hinner, by omega, fun hlt => hrest (by omega)⟩
    rw [List.length_append] at hlimit
    exact ⟨bs, c', _, hread, rfl, hlen, ⟨hr', by simp only; omega, hrest⟩, hmore⟩
  ended := by
    intro t n hn hr
    by_cases hlimit : t.limit = 0
    · exact ⟨t, Take.read_zero hlimit n, hr, Iff.rfl⟩
    · obtain ⟨hinner, hk, hrest⟩ := hr
      obtain rfl : rest = [] := hrest (by simp at hk; omega)
      obtain ⟨r', hread, hr', hs⟩ := h.ended (n := min n t.limit) (by omega) hinner
      exact ⟨_, Take.read_ok hlimit hread, ⟨hr', by simpa using hk, fun _ => rfl⟩, hs⟩

/-- Consuming part of a fill cut off at the limit. -/
theorem Taken.consume [BufRead ρ] {rest c buf : Bytes} {t : Take ρ} {r' : ρ}
    (hl : c.length = t.limit) (hbuf : buf <+: c ++ rest)
    (hconsume : ∀ k ≤ buf.length, R (BufRead.consume k r') ((c ++ rest).drop k)) :
    buf.take t.limit <+: c ∧ ∀ k ≤ (buf.take t.limit).length,
      Taken R rest (BufRead.consume k (⟨r', t.limit⟩ : Take ρ)) (c.drop k) := by
  refine ⟨?_, fun k hk => ?_⟩
  · obtain ⟨tail, htail⟩ := hbuf
    have : buf.take t.limit <+: (c ++ rest).take t.limit := by
      rw [← htail, List.take_append]
      exact List.prefix_append _ _
    rw [← hl] at this ⊢
    rwa [List.take_left] at this
  · rw [List.length_take] at hk
    have hmin : min k t.limit = k := by omega
    refine ⟨?_, by simp [BufRead.consume, Take.consume, hmin, hl]⟩
    have := hconsume k (by omega)
    rw [List.drop_append_of_le_length (by omega)] at this
    simpa [BufRead.consume, Take.consume, hmin] using this

theorem Taken.idle [BufRead ρ] {rest c : Bytes} {t : Take ρ}
    (hidle : ∀ {r c}, R r c → R (BufRead.consume 0 r) c) (hr : Taken R rest t c) :
    Taken R rest (BufRead.consume 0 t) c :=
  ⟨by simpa [BufRead.consume, Take.consume] using hidle hr.1,
    by simpa [BufRead.consume, Take.consume] using hr.2⟩

theorem Take.fillBuf_zero [BufRead ρ] {t : Take ρ} (h : t.limit = 0) :
    BufRead.fillBuf t = (.ok [], t) := by
  simp [BufRead.fillBuf, Take.fillBuf, h]

theorem Fills.take [BufRead ρ] (h : Fills R) (rest : Bytes) : Fills (Taken R rest) where
  idle := Taken.idle h.idle
  fill := by
    intro t c hr
    by_cases hlimit : t.limit = 0
    · obtain rfl : c = [] := List.length_eq_zero_iff.mp (hr.2.trans hlimit)
      refine ⟨[], t, Take.fillBuf_zero hlimit, hr, List.nil_prefix, by simp, fun k hk => ?_⟩
      obtain rfl : k = 0 := by simpa using hk
      exact Taken.idle h.idle hr
    · obtain ⟨buf, r', hfill, hr', hbuf, hne, hconsume⟩ := h.fill hr.1
      have hcut := Taken.consume hr.2 hbuf hconsume
      refine ⟨buf.take t.limit, ⟨r', t.limit⟩, ?_, ⟨hr', hr.2⟩, hcut.1, fun hc he => ?_, hcut.2⟩
      · simp [BufRead.fillBuf, Take.fillBuf, hlimit, hfill]
      · have : buf ≠ [] := hne (by simp [hc])
        simp [hlimit, this] at he

theorem Whole.take [BufRead ρ] (h : Whole R) (rest : Bytes) : Whole (Taken R rest) := by
  intro s c buf t' h hfill
  obtain ⟨r, limit⟩ := s
  obtain ⟨hinner, hlimit⟩ := h
  change Take.fillBuf _ = _ at hfill
  dsimp only at hinner hlimit
  unfold Take.fillBuf at hfill
  by_cases hzero : limit = 0
  · simp only [hzero, if_true] at hfill
    cases hfill
    exact (List.length_eq_zero_iff.mp (hlimit.trans hzero)).symm
  · simp only [hzero, if_false] at hfill
    rcases hall : BufRead.fillBuf r with ⟨e | bytes, r'⟩ <;> rw [hall] at hfill <;> cases hfill
    rw [h hinner hall, ← hlimit, List.take_left]

end Take

/-! ### `discard` -/

section Discard
variable {ρ : Type} [Read ρ] {R : ρ → Bytes → Prop} {Stalled : ρ → Prop}

/-- What copying out of a limited reader did: it took `k` bytes, all there are
unless it stalled. -/
structure Copied (R : ρ → Bytes → Prop) (Stalled : ρ → Prop) (limit : Nat) (r : ρ) (c : Bytes)
    (k : Nat) (r' : ρ) : Prop where
  within : k ≤ limit
  present : k ≤ c.length
  left : R r' (c.drop k)
  whole : Stalled r' ∨ k = min limit c.length
  stays : Stalled r → Stalled r'
  short : Stalled r' → Stalled r ∨ (k < limit ∧ k < c.length)

theorem copyLoop_copied (h : Delivers R Stalled) (turns limit : Nat) (hturns : limit ≤ turns)
    (r : ρ) (c : Bytes) (hr : R r c) : ∃ k r',
      copyLoop turns (⟨r, limit⟩ : Take ρ) = (.ok k, ⟨r', limit - k⟩) ∧
        Copied R Stalled limit r c k r' := by
  induction turns generalizing limit r c with
  | zero =>
    obtain rfl : limit = 0 := by omega
    exact ⟨0, r, rfl, by omega, by omega, hr, .inr (by omega), id, .inl⟩
  | succ turns ih =>
    unfold copyLoop
    by_cases hlimit : limit = 0
    · subst hlimit
      rw [bind_ok (Take.read_zero rfl copyBuffer), if_pos rfl]
      exact ⟨0, r, rfl, by omega, by omega, hr, .inr (by omega), id, .inl⟩
    · have hpos : 0 < min copyBuffer limit := by
        simp only [copyBuffer]
        omega
      by_cases hc : c = []
      · subst hc
        obtain ⟨r', hread, hr', hs⟩ := h.ended hpos hr
        rw [bind_ok (Take.read_ok hlimit hread), if_pos rfl]
        exact ⟨0, r', rfl, by omega, by simp, hr', .inr (by simp), hs.mpr, fun hst => .inl (hs.mp hst)⟩
      · obtain ⟨bs, c', r', hread, rfl, hlen, hr', hnone, hstays, hback⟩ := h.more hpos hc hr
        rw [bind_ok (Take.read_ok hlimit hread)]
        by_cases hbs : bs = []
        · subst hbs
          exact ⟨0, r', rfl, by omega, by omega, hr', .inl (hnone rfl), hstays,
            fun _ => .inr ⟨by omega, List.length_pos_iff.mpr hc⟩⟩
        · rw [if_neg hbs]
          have hpos : 0 < bs.length := List.length_pos_iff.mpr hbs
          obtain ⟨k, r'', hcopy, hk⟩ := ih (limit - bs.length) (by omega) r' c' hr'
          rw [bind_ok hcopy]
          have hwithin := hk.within
          refine ⟨bs.length + k, r'', by simp [Nat.sub_sub], by omega, ?_, ?_, ?_, ?_, ?_⟩
          · have := hk.present
            simp only [List.length_append]
            omega
          · rw [List.drop_append, List.drop_eq_nil_of_le (by omega)]
            simpa using hk.left
          · refine hk.whole.imp_right fun hw => ?_
            simp only [List.length_append]
            omega
          · exact hk.stays ∘ hstays
          · intro hs
            refine (hk.short hs).imp (hback hbs) fun hless => ?_
            simp only [List.length_append]
            omega

theorem discard_apply (h : Delivers R Stalled) {n : Nat} (hn : n ≠ 0) {r : ρ} {c : Bytes}
    (hr : R r c) : ∃ k r', discard n r = (if k = n then .ok () else .error eofDiscarding, r') ∧
      Copied R Stalled n r c k r' := by
  obtain ⟨k, r', hcopy, hk⟩ := copyLoop_copied h n n (Nat.le_refl n) r c hr
  refine ⟨k, r', ?_, hk⟩
  have htaking : taking n (copyLoop n : Action IoError (Take ρ) Nat) r = (.ok k, r') := by
    simp [taking, hcopy]
  rw [discard, if_neg hn, bind_ok htaking]
  split <;> rfl

theorem discard_did (h : Delivers R Stalled) (n : Nat) {r : ρ} {c : Bytes} (hr : R r c) :
    Did R Stalled r (discard n r) (skipped n c) := by
  by_cases hn : n = 0
  · subst hn
    exact ⟨⟨c, hr, .inr (by simp [discard, skipped])⟩, id⟩
  · obtain ⟨k, r', hdiscard, hk⟩ := discard_apply h hn hr
    rw [hdiscard]
    refine ⟨⟨c.drop k, hk.left, ?_⟩, hk.stays⟩
    have hpresent := hk.present
    by_cases hkn : k = n
    · subst hkn
      exact .inr (by simp [skipped, hpresent])
    · refine hk.whole.imp_right fun hw => ?_
      rw [if_neg hkn, skipped, if_neg (by omega), List.drop_eq_nil_of_le (by omega)]

theorem discard_stalled (h : Delivers R Stalled) {n : Nat} {r : ρ} {c : Bytes} (hr : R r c)
    (hs : Stalled (discard n r).2) : Stalled r ∨ ((discard n r).1 = .error eofDiscarding ∧
      ∃ c', c' ≠ [] ∧ R (discard n r).2 c') := by
  by_cases hn : n = 0
  · subst hn
    exact .inl hs
  · obtain ⟨k, r', hdiscard, hk⟩ := discard_apply h hn hr
    rw [hdiscard] at hs ⊢
    refine (hk.short hs).imp_right fun ⟨hlimit, hpresent⟩ => ⟨?_, c.drop k, ?_, hk.left⟩
    · rw [if_neg (Nat.ne_of_lt hlimit)]
    · rw [Ne, List.drop_eq_nil_iff]
      omega

end Discard

/-! ### `BufReader` -/

theorem drop_length_take {α : Type} (n : Nat) (l : List α) :
    l.drop (l.take n).length = l.drop n := by
  rcases Nat.le_total n l.length with h | h
  · rw [List.length_take, Nat.min_eq_left h]
  · rw [List.take_of_length_le h, List.drop_length, List.drop_eq_nil_of_le h]

section BufReader
variable {ρ : Type} [Read ρ] {R : ρ → Bytes → Prop} {Stalled : ρ → Prop}

/-- What was read ahead comes before what the inner reader holds. -/
def Buffered (R : ρ → Bytes → Prop) (b : BufReader ρ) (c : Bytes) : Prop :=
  0 < b.capacity ∧ ∃ behind, R b.inner behind ∧ c = b.buffer ++ behind

omit [Read ρ] in
theorem Buffered.consume {b : BufReader ρ} {c : Bytes} (hr : Buffered R b c) {k : Nat}
    (hk : k ≤ b.buffer.length) : Buffered R (b.consume k) (c.drop k) := by
  obtain ⟨hcap, behind, hr, rfl⟩ := hr
  exact ⟨hcap, behind, hr, by simp [BufReader.consume, List.drop_append_of_le_length hk]⟩

omit [Read ρ] in
theorem Determined.buffered (h : Determined R) : Determined (Buffered R) := by
  intro b c c' h h'
  obtain ⟨-, behind, hr, rfl⟩ := h
  obtain ⟨-, behind', hr', rfl⟩ := h'
  rw [h hr hr']

/-- A fill leaves a nonempty buffer alone, and reads into an empty one. -/
theorem BufReader.fillBuf_apply (h : Delivers R Stalled) {b : BufReader ρ} {c : Bytes}
    (hr : Buffered R b c) : ∃ b', BufReader.fillBuf b = (.ok b'.buffer, b') ∧ Buffered R b' c ∧
      (c ≠ [] → b'.buffer = [] → Stalled b'.inner) ∧ (Stalled b.inner → Stalled b'.inner) ∧
      (c = [] ∨ b'.buffer ≠ [] → Stalled b'.inner → Stalled b.inner) := by
  obtain ⟨hcap, behind, hinner, rfl⟩ := hr
  by_cases hbuf : b.buffer = []
  · rw [hbuf, List.nil_append]
    by_cases hb : behind = []
    · subst hb
      obtain ⟨r', hread, hr', hs⟩ := h.ended hcap hinner
      refine ⟨⟨r', [], b.capacity⟩, by simp [BufReader.fillBuf, hbuf, hread],
        ⟨hcap, [], hr', rfl⟩, fun hne => absurd rfl hne, hs.mpr, fun _ => hs.mp⟩
    · obtain ⟨bs, c', r', hread, rfl, -, hr', hnone, hstays, hback⟩ := h.more hcap hb hinner
      exact ⟨⟨r', bs, b.capacity⟩, by simp [BufReader.fillBuf, hbuf, hread],
        ⟨hcap, c', hr', rfl⟩, fun _ => hnone, hstays,
        fun hne => hback (hne.resolve_left hb)⟩
  · exact ⟨b, by simp [BufReader.fillBuf, hbuf], ⟨hcap, behind, hinner, rfl⟩,
      fun _ he => absurd he hbuf, id, fun _ => id⟩

/-- Buffering changes neither the bytes nor whether the reader stalls. -/
theorem Delivers.buffered (h : Delivers R Stalled) :
    Delivers (Buffered R) (fun b : BufReader ρ => Stalled b.inner) where
  more := by
    intro b c n hn hc hr
    by_cases hby : b.buffer = [] ∧ b.capacity ≤ n
    · obtain ⟨hcap, behind, hinner, rfl⟩ := hr
      rw [hby.1, List.nil_append] at hc ⊢
      obtain ⟨bs, c', r', hread, rfl, hlen, hr', hnone, hstays, hback⟩ := h.more hn hc hinner
      exact ⟨bs, c', ⟨r', [], b.capacity⟩, by simp [Read.read, BufReader.read, hby, hread], rfl,
        hlen, ⟨hcap, c', hr', rfl⟩, hnone, hstays, hback⟩
    · obtain ⟨b', hfill, hr', hnone, hstays, hback⟩ := BufReader.fillBuf_apply h hr
      have hle : (b'.buffer.take n).length ≤ b'.buffer.length := List.length_take_le' n b'.buffer
      have hread : Read.read n b = (.ok (b'.buffer.take n), b'.consume (b'.buffer.take n).length) := by
        simp only [Read.read, BufReader.read, hby, if_false, hfill, BufReader.consume, drop_length_take]
      refine ⟨b'.buffer.take n, c.drop (b'.buffer.take n).length,
        b'.consume (b'.buffer.take n).length, hread, ?_, List.length_take_le n b'.buffer,
        Buffered.consume hr' hle, fun he => ?_, hstays, fun hne => ?_⟩
      · obtain ⟨-, behind, -, rfl⟩ := hr'
        rw [List.drop_append_of_le_length hle, ← List.append_assoc, drop_length_take,
          List.take_append_drop]
      · exact hnone hc ((List.take_eq_nil_iff.mp he).resolve_left (by omega))
      · exact hback (.inr fun he => hne (by simp [he]))
  ended := by
    intro b n hn hr
    by_cases hby : b.buffer = [] ∧ b.capacity ≤ n
    · obtain ⟨hcap, behind, hinner, he⟩ := hr
      obtain rfl : behind = [] := by simpa [hby.1] using he.symm
      obtain ⟨r', hread, hr', hs⟩ := h.ended hn hinner
      exact ⟨⟨r', [], b.capacity⟩, by simp [Read.read, BufReader.read, hby, hread],
        ⟨hcap, [], hr', rfl⟩, hs⟩
    · obtain ⟨b', hfill, hr', -, hstays, hback⟩ := BufReader.fillBuf_apply h hr
      have hbuf : b'.buffer = [] := by
        obtain ⟨-, behind, -, he⟩ := hr'
        exact (List.append_eq_nil_iff.mp he.symm).1
      refine ⟨b', ?_, hr', hback (.inl rfl), hstays⟩
      have hread : Read.read n b = (.ok (b'.buffer.take n), b'.consume n) := by
        simp [Read.read, BufReader.read, hby, hfill]
      rw [hread, BufReader.consume, hbuf, List.take_nil, List.drop_nil, ← hbuf]

/-- Over a reader that never stalls every fill before the end has bytes. -/
theorem Delivers.fills (h : Delivers R Never) : Fills (Buffered R) where
  idle hr := Buffered.consume hr (Nat.zero_le _)
  fill := by
    intro b c hr
    obtain ⟨b', hfill, hr', hnone, -, -⟩ := BufReader.fillBuf_apply h hr
    refine ⟨b'.buffer, b', hfill, hr', ?_, fun hc he => hnone hc he, fun k hk => Buffered.consume hr' hk⟩
    obtain ⟨-, behind, -, rfl⟩ := hr'
    exact List.prefix_append _ _

/-- One without a buffer passes every read on. -/
def Unbuffered (R : ρ → Bytes → Prop) (b : BufReader ρ) (c : Bytes) : Prop :=
  b.capacity = 0 ∧ b.buffer = [] ∧ R b.inner c

theorem Delivers.unbuffered (h : Delivers R Stalled) :
    Delivers (Unbuffered R) (fun b : BufReader ρ => Stalled b.inner) where
  more := by
    intro s c n hn hc h
    obtain ⟨r, buffer, capacity⟩ := s
    obtain ⟨hcap, hbuf, hr⟩ := h
    obtain ⟨bs, c', r', hread, hmore⟩ := h.more hn hc hr
    dsimp only at hcap hbuf
    subst hcap hbuf
    exact ⟨bs, c', ⟨r', [], 0⟩, by simp [Read.read, BufReader.read, hread], hmore.1, hmore.2.1,
      ⟨rfl, rfl, hmore.2.2.1⟩, hmore.2.2.2⟩
  ended := by
    intro s n hn h
    obtain ⟨r, buffer, capacity⟩ := s
    obtain ⟨hcap, hbuf, hr⟩ := h
    obtain ⟨r', hread, hr', hs⟩ := h.ended hn hr
    dsimp only at hcap hbuf
    subst hcap hbuf
    exact ⟨⟨r', [], 0⟩, by simp [Read.read, BufReader.read, hread], ⟨rfl, rfl, hr'⟩, hs⟩

/-- Under some contract the reads of `b`, and its fills if it has a buffer, hand over `c`. -/
def BufReader.Sees (b : BufReader ρ) (c : Bytes) : Prop :=
  ∃ Q, Delivers Q Never ∧ Q b c ∧ (0 < b.capacity → Fills Q)

theorem BufReader.sees (h : Delivers R Never) {b : BufReader ρ} {behind : Bytes}
    (hcap : b.capacity = 0 → b.buffer = []) (hr : R b.inner behind) : b.Sees (b.buffer ++ behind) := by
  by_cases hzero : b.capacity = 0
  · refine ⟨_, h.unbuffered, ⟨hzero, hcap hzero, ?_⟩, fun hpos => absurd hzero (Nat.ne_of_gt hpos)⟩
    rwa [hcap hzero]
  · exact ⟨_, h.buffered, ⟨Nat.pos_of_ne_zero hzero, behind, hr, rfl⟩, fun _ => h.fills⟩

theorem BufReader.Sees.prefix_of {b : BufReader ρ} {c c' : Bytes} (h : b.Sees c) (h' : b.Sees c') :
    c <+: c' := by
  obtain ⟨Q, hQ, hc, -⟩ := h
  obtain ⟨Q', hQ', hc', -⟩ := h'
  have hread := ((readExact_did hQ c.length hc).exact id).1
  rw [((readExact_did hQ' c.length hc').exact id).1] at hread
  simp only [exactly, Nat.le_refl, if_true, List.take_length] at hread
  split at hread
  · rw [← Except.ok.inj hread]
    exact List.take_prefix _ _
  · cases hread

/-- What a reader sees is certain. -/
theorem BufReader.Sees.unique {b : BufReader ρ} {c c' : Bytes} (h : b.Sees c) (h' : b.Sees c') :
    c = c' :=
  (h.prefix_of h').eq_of_length_le (h'.prefix_of h).length_le

end BufReader

/-! ### Slices and transports -/

/-- A slice holds its bytes. -/
def Slice.Holds (s : Slice) (c : Bytes) : Prop := s.bytes = c

theorem Slice.delivers : Delivers Slice.Holds Never where
  more := by
    intro s c n hn hc h
    obtain ⟨bytes⟩ := s
    obtain rfl := h
    refine ⟨bytes.take n, bytes.drop n, ⟨bytes.drop n⟩, rfl, (List.take_append_drop n bytes).symm,
      List.length_take_le n bytes, rfl, fun he => ?_, id, fun _ => id⟩
    exact absurd ((List.take_eq_nil_iff.mp he).resolve_left (by omega)) hc
  ended := by
    intro s n _ h
    obtain ⟨bytes⟩ := s
    obtain rfl := h
    exact ⟨⟨[]⟩, by simp [Read.read], rfl, Iff.rfl⟩

theorem Slice.fills : Fills Slice.Holds where
  idle := by
    intro s c h
    obtain ⟨bytes⟩ := s
    obtain rfl := h
    rfl
  fill := by
    intro s c h
    obtain ⟨bytes⟩ := s
    obtain rfl := h
    exact ⟨bytes, ⟨bytes⟩, rfl, rfl, List.prefix_refl _, id, fun _ _ => rfl⟩

theorem Slice.determined : Determined Slice.Holds := fun h h' => h.symm.trans h'

theorem Slice.whole : Whole Slice.Holds := by
  intro s c buf r' h hfill
  obtain ⟨bytes⟩ := s
  obtain rfl := h
  cases hfill
  rfl

/-- A transport holds its segments, one after the other. -/
def Segments.Holds (t : Segments) (c : Bytes) : Prop := t.segments.flatten = c

theorem Segments.determined : Determined Segments.Holds := fun h h' => h.symm.trans h'

theorem Segments.delivers : Delivers Segments.Holds Never where
  more := by
    intro t c n hn hc hheld
    obtain rfl := hheld
    obtain ⟨_ | ⟨s, rest⟩, h⟩ := t
    · simp at hc
    · have hs : s ≠ [] := h s (by simp)
      by_cases hle : s.length ≤ n
      · have hrest : ∀ x ∈ rest, x ≠ [] := fun x hx => h x (List.mem_cons_of_mem s hx)
        exact ⟨s, rest.flatten, ⟨rest, hrest⟩, by simp [Read.read, Segments.read, hle], by simp, hle,
          rfl, fun he => absurd he hs, id, fun _ => id⟩
      · have hrest : ∀ x ∈ s.drop n :: rest, x ≠ [] := by
          intro x hx
          rcases List.mem_cons.mp hx with rfl | hx
          · exact fun he => hle (List.drop_eq_nil_iff.mp he)
          · exact h x (List.mem_cons_of_mem s hx)
        refine ⟨s.take n, s.drop n ++ rest.flatten, ⟨s.drop n :: rest, hrest⟩,
          by simp [Read.read, Segments.read, hle], by simp [← List.append_assoc],
          List.length_take_le n s, by simp [Segments.Holds], fun he => ?_, id, fun _ => id⟩
        exact absurd ((List.take_eq_nil_iff.mp he).resolve_left (by omega)) hs
  ended := by
    intro t n hn he
    obtain ⟨_ | ⟨s, rest⟩, h⟩ := t
    · exact ⟨⟨[], h⟩, rfl, rfl, Iff.rfl⟩
    · have hs : s ≠ [] := h s (by simp)
      simp [Segments.Holds, hs] at he

/-! ### Reading on -/

/-- A reader and the bytes its caller has been given. -/
structure Reading (ρ : Type) where
  reader : ρ
  yielded : Bytes

section Reading
variable {ρ : Type} [Read ρ] {R : ρ → Bytes → Prop}

/-- A read into a buffer of length `n`, whatever comes of it. -/
def Reading.step (s : Reading ρ) (n : Nat) : Reading ρ :=
  match Read.read n s.reader with
  | (.ok bytes, r) => ⟨r, s.yielded ++ bytes⟩
  | (.error _, r) => ⟨r, s.yielded⟩

def Reading.run (s : Reading ρ) (sizes : List Nat) : Reading ρ := sizes.foldl step s

theorem Tracks.step (h : Tracks R) {s : Reading ρ} {c : Bytes} (hr : R s.reader c) (n : Nat) :
    ∃ c', R (s.step n).reader c' ∧ s.yielded ++ c = (s.step n).yielded ++ c' := by
  rcases hread : Read.read n s.reader with ⟨e | bytes, r⟩
  · exact ⟨c, by simpa [Reading.step, hread] using h.error hr hread, by simp [Reading.step, hread]⟩
  · obtain ⟨c', rfl, -, hr'⟩ := h.ok hr hread
    exact ⟨c', by simpa [Reading.step, hread] using hr', by simp [Reading.step, hread]⟩

/-- What was yielded and what is left are together what was there. -/
theorem Tracks.run (h : Tracks R) {s : Reading ρ} {c : Bytes} (hr : R s.reader c) (sizes : List Nat) :
    ∃ c', R (s.run sizes).reader c' ∧ s.yielded ++ c = (s.run sizes).yielded ++ c' := by
  induction sizes generalizing s c with
  | nil => exact ⟨c, hr, rfl⟩
  | cons n sizes ih =>
    obtain ⟨c₁, hr₁, hsplit₁⟩ := h.step hr n
    obtain ⟨c₂, hr₂, hsplit₂⟩ := ih hr₁
    exact ⟨c₂, hr₂, hsplit₁.trans hsplit₂⟩

end Reading

theorem Segments.tracks : Tracks Segments.Holds where
  ok := by
    intro t c n bs r' hheld hread
    obtain rfl := hheld
    obtain ⟨_ | ⟨s, rest⟩, h⟩ := t
    · cases hread
      exact ⟨[], rfl, Nat.zero_le n, rfl⟩
    · by_cases hle : s.length ≤ n <;>
        simp only [Read.read, Segments.read, hle, dite_true, dite_false] at hread <;> cases hread
      · exact ⟨rest.flatten, rfl, hle, rfl⟩
      · exact ⟨s.drop n ++ rest.flatten, by simp [← List.append_assoc], List.length_take_le n s,
          by simp [Segments.Holds]⟩
  error := by
    intro t c n e r' hheld hread
    obtain rfl := hheld
    obtain ⟨_ | ⟨s, rest⟩, h⟩ := t
    · cases hread
    · by_cases hle : s.length ≤ n <;>
        simp only [Read.read, Segments.read, hle, dite_true, dite_false] at hread <;> cases hread

end Protocraft.Stream
