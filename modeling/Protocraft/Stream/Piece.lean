import Protocraft.Stream.Loops
import Protocraft.Stream.Source

/-! What arrives in one piece.

A buffered reader whose next fill is all that is there (`OnePiece`) keeps being one until it is
empty, so a caller that has to see the whole of its input in one fill can read from it
(`Delivers.onePiece_whole`). -/
namespace Protocraft.Stream

variable {ρ : Type}

/-- Reads that hand over the bytes and keep `I` hand over the bytes of readers of which `I` holds. -/
theorem Delivers.kept [Read ρ] {R : ρ → Bytes → Prop} {I : ρ → Prop} (h : Delivers R Never)
    (hkept : ∀ n, Keeps I (Read.read n)) : Delivers (fun r c => R r c ∧ I r) Never where
  more := by
    intro r c n hn hc hr
    obtain ⟨bs, c', r', hread, hsplit, hlen, hr', hmore⟩ := h.more hn hc hr.1
    have hI := hkept n r hr.2
    rw [hread] at hI
    exact ⟨bs, c', r', hread, hsplit, hlen, ⟨hr', hI⟩, hmore⟩
  ended := by
    intro r n hn hr
    obtain ⟨r', hread, hr', hs⟩ := h.ended hn hr.1
    have hI := hkept n r hr.2
    rw [hread] at hI
    exact ⟨r', hread, ⟨hr', hI⟩, hs⟩

section OnePiece
variable [Read ρ] {R : ρ → Bytes → Prop}

/-- A read of as many bytes as the buffer takes leaves nothing. -/
def Prompt (R : ρ → Bytes → Prop) (capacity : Nat) (r : ρ) (c : Bytes) : Prop :=
  ∀ n, capacity ≤ n → ∃ r', Read.read n r = (.ok c, r') ∧ R r' []

/-- All that is there is in the buffer, or in the next fill of an empty one. -/
def OnePiece (R : ρ → Bytes → Prop) (b : BufReader ρ) (c : Bytes) : Prop :=
  0 < b.capacity ∧
    (b.buffer = c ∧ R b.inner [] ∨ b.buffer = [] ∧ R b.inner c ∧ Prompt R b.capacity b.inner c)

theorem OnePiece.buffered {b : BufReader ρ} {c : Bytes} (h : OnePiece R b c) : Buffered R b c := by
  obtain ⟨hcap, ⟨hbuf, hr⟩ | ⟨hbuf, hr, -⟩⟩ := h
  · exact ⟨hcap, [], hr, by rw [hbuf, List.append_nil]⟩
  · exact ⟨hcap, c, hr, by rw [hbuf, List.nil_append]⟩

theorem OnePiece.consume {r : ρ} {c : Bytes} {capacity : Nat} (hcap : 0 < capacity)
    (hr : R r []) (k : Nat) : OnePiece R (BufReader.consume k ⟨r, c, capacity⟩) (c.drop k) :=
  ⟨hcap, .inl ⟨rfl, hr⟩⟩

/-- A fill brings all of it into the buffer. -/
theorem OnePiece.fillBuf (h : Delivers R Never) {b : BufReader ρ} {c : Bytes} (hr : OnePiece R b c) :
    ∃ r', BufReader.fillBuf b = (.ok c, ⟨r', c, b.capacity⟩) ∧ R r' [] := by
  obtain ⟨r, buffer, capacity⟩ := b
  obtain ⟨hcap, hr⟩ := hr
  dsimp only at hcap hr
  by_cases hempty : buffer = []
  · subst hempty
    have hread : ∃ r', Read.read capacity r = (.ok c, r') ∧ R r' [] := by
      obtain ⟨rfl, hinner⟩ | ⟨-, -, hprompt⟩ := hr
      · obtain ⟨r', hread, hr', -⟩ := h.ended hcap hinner
        exact ⟨r', hread, hr'⟩
      · exact hprompt capacity (Nat.le_refl _)
    obtain ⟨r', hread, hr'⟩ := hread
    exact ⟨r', by simp [BufReader.fillBuf, hread], hr'⟩
  · obtain ⟨rfl, hinner⟩ | ⟨hbuf, -⟩ := hr
    · exact ⟨r, by simp [BufReader.fillBuf, hempty], hinner⟩
    · exact absurd hbuf hempty

/-- A read takes what it asks for off the piece. -/
theorem OnePiece.read (h : Delivers R Never) {b : BufReader ρ} {c : Bytes} {n : Nat} (hn : 0 < n)
    (hr : OnePiece R b c) : ∃ b', Read.read n b = (.ok (c.take n), b') ∧ OnePiece R b' (c.drop n) := by
  by_cases hby : b.buffer = [] ∧ b.capacity ≤ n
  · have hread : ∃ r', Read.read n b.inner = (.ok c, r') ∧ R r' [] := by
      obtain ⟨-, ⟨hbuf, hinner⟩ | ⟨-, -, hprompt⟩⟩ := hr
      · obtain rfl := hby.1.symm.trans hbuf
        obtain ⟨r', hread, hr', -⟩ := h.ended hn hinner
        exact ⟨r', hread, hr'⟩
      · exact hprompt n hby.2
    have hlen : c.length ≤ n := by
      by_cases hc : c = []
      · simp [hc]
      · obtain ⟨r', hread, -⟩ := hread
        have hinner : R b.inner c := by
          obtain ⟨-, ⟨hbuf, -⟩ | ⟨-, hinner, -⟩⟩ := hr
          · exact absurd (hby.1.symm.trans hbuf).symm hc
          · exact hinner
        obtain ⟨bs, c', r'', hread', -, hle, -⟩ := h.more hn hc hinner
        rw [hread] at hread'
        cases hread'
        exact hle
    obtain ⟨r', hread, hr'⟩ := hread
    refine ⟨⟨r', [], b.capacity⟩, ?_, hr.1, .inl ⟨(List.drop_eq_nil_of_le hlen).symm, hr'⟩⟩
    rw [List.take_of_length_le hlen]
    show BufReader.read n b = _
    simp only [BufReader.read, hby, and_self, if_true, hread]
  · obtain ⟨r', hfill, hr'⟩ := hr.fillBuf h
    refine ⟨BufReader.consume n ⟨r', c, b.capacity⟩, ?_, OnePiece.consume hr.1 hr' n⟩
    show BufReader.read n b = _
    simp only [BufReader.read, hby, if_false, hfill]

theorem Delivers.onePiece (h : Delivers R Never) : Delivers (OnePiece R) Never where
  more := by
    intro b c n hn hc hr
    obtain ⟨b', hread, hr'⟩ := hr.read h hn
    refine ⟨c.take n, c.drop n, b', hread, (List.take_append_drop n c).symm,
      List.length_take_le n c, hr', ?_, id, fun _ => id⟩
    exact fun he => absurd ((List.take_eq_nil_iff.mp he).resolve_left (by omega)) hc
  ended := by
    intro b n hn hr
    obtain ⟨b', hread, hr'⟩ := hr.read h hn
    rw [List.take_nil] at hread
    rw [List.drop_nil] at hr'
    exact ⟨b', hread, hr', Iff.rfl⟩

theorem Delivers.onePiece_fills (h : Delivers R Never) : Fills (OnePiece R) where
  idle := by
    intro b c hr
    exact hr
  fill := by
    intro b c hr
    obtain ⟨r', hfill, hr'⟩ := hr.fillBuf h
    exact ⟨c, _, hfill, ⟨hr.1, .inl ⟨rfl, hr'⟩⟩, List.prefix_refl _, id,
      fun k _ => OnePiece.consume hr.1 hr' k⟩

theorem Delivers.onePiece_whole (h : Delivers R Never) : Whole (OnePiece R) := by
  intro b c buf b' hr hfill
  obtain ⟨r', hfill', -⟩ := hr.fillBuf h
  cases hfill.symm.trans hfill'
  rfl

end OnePiece

/-! ### More segments -/

def Segments.push (s : Bytes) (hs : s ≠ []) (t : Segments) : Segments :=
  ⟨t.segments ++ [s], by
    intro x hx
    rcases List.mem_append.mp hx with hx | hx
    · exact t.nonempty x hx
    · rwa [List.mem_singleton.mp hx]⟩

@[simp] theorem Segments.push_flatten (s : Bytes) (hs : s ≠ []) (t : Segments) :
    (t.push s hs).segments.flatten = t.segments.flatten ++ s := by
  simp [Segments.push]

/-- There is at most one segment, and it fits into the buffer. -/
def Segments.Single (capacity : Nat) (t : Segments) : Prop :=
  t.segments = [] ∨ ∃ s, t.segments = [s] ∧ s.length ≤ capacity

theorem Segments.Single.prompt {capacity : Nat} {t : Segments} (h : t.Single capacity) :
    Prompt Segments.Holds capacity t t.segments.flatten := by
  intro n hn
  obtain ⟨segments, hsegments⟩ := t
  obtain rfl | ⟨s, rfl, hs⟩ := h
  · exact ⟨_, rfl, rfl⟩
  · have hle : s.length ≤ n := Nat.le_trans hs hn
    refine ⟨⟨[], by simp⟩, ?_, rfl⟩
    simp [Read.read, Segments.read, hle]

end Protocraft.Stream
