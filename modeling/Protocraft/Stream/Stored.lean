import Mathlib.Data.List.Basic
import Protocraft.Stream.Cipher
import Protocraft.Stream.Codec

/-! The part of zlib that does not compress: stored blocks.

A stream is a two-byte header, blocks, each with its length, its complement and its
bytes, the last of them marked, and the Adler-32 checksum of all the bytes. `machine`
reads one byte at a time; `Inflater` feeds it all the input it is given as soon as
everything it has to write is out, and `Deflater` holds back its input until a flush.
They keep the contracts of `Codec`. -/
namespace Protocraft.Stream.Stored

/-! ### The format -/

abbrev Adler := Nat × Nat

def adlerStep (s : Adler) (b : Byte) : Adler :=
  ((s.1 + b.toNat) % 65521, (s.2 + (s.1 + b.toNat) % 65521) % 65521)

/-- The checksum, from that of the bytes before. -/
def adler (s : Adler) (bytes : Bytes) : Adler := bytes.foldl adlerStep s

def adlerStart : Adler := (1, 0)

def adlerBytes (s : Adler) : Bytes :=
  [BitVec.ofNat 8 (s.2 / 256), BitVec.ofNat 8 s.2, BitVec.ofNat 8 (s.1 / 256), BitVec.ofNat 8 s.1]

def word (n : Nat) : Bytes := [BitVec.ofNat 8 n, BitVec.ofNat 8 (n / 256)]

def zlibHeader : Bytes := [0x78, 0x01]

def maxBlock : Nat := 65535

def block (final : Bool) (bytes : Bytes) : Bytes :=
  (if final then 1 else 0) :: word bytes.length ++ word (maxBlock - bytes.length) ++ bytes

def blocks (final : Bool) (bytes : Bytes) : Bytes :=
  if bytes.length ≤ maxBlock then block final bytes
  else block false (bytes.take maxBlock) ++ blocks final (bytes.drop maxBlock)
termination_by bytes.length
decreasing_by
  rw [List.length_drop]
  simp only [maxBlock] at *
  omega

/-! ### Reading it -/

inductive Phase where
  | header (seen : Bytes)
  | block (sum : Adler)
  | lengths (final : Bool) (seen : Bytes) (sum : Adler)
  | data (final : Bool) (left : Nat) (sum : Adler)
  | trailer (seen : Bytes) (sum : Adler)
  | done
  | failed
  deriving DecidableEq, Repr

/-- Behind the last byte of a block. -/
def afterBlock (final : Bool) (sum : Adler) : Phase := if final then .trailer [] sum else .block sum

/-- The header of a stream with window of at most 32 KiB and no preset dictionary. -/
def validHeader (cmf flg : Byte) : Bool :=
  (cmf.toNat * 256 + flg.toNat) % 31 = 0 ∧ cmf.toNat % 16 = 8 ∧ cmf.toNat / 16 ≤ 7 ∧
    flg.toNat / 32 % 2 = 0

/-- The data of a block whose length fields are those four bytes. -/
def openBlock (final : Bool) (sum : Adler) : Bytes → Phase
  | [l₀, l₁, n₀, n₁] =>
    if l₀.toNat + 256 * l₁.toNat + (n₀.toNat + 256 * n₁.toNat) = maxBlock then
      match l₀.toNat + 256 * l₁.toNat with
      | 0 => afterBlock final sum
      | left + 1 => .data final (left + 1) sum
    else .failed
  | _ => .failed

def step : Phase → Byte → Bytes × Phase
  | .header [], b => ([], .header [b])
  | .header (cmf :: _), b => ([], if validHeader cmf b then .block adlerStart else .failed)
  | .block sum, b =>
    ([], if b.toNat / 2 % 4 = 0 then .lengths (b.toNat % 2 = 1) [] sum else .failed)
  | .lengths final seen sum, b =>
    ([], if seen.length < 3 then .lengths final (seen ++ [b]) sum
      else openBlock final sum (seen ++ [b]))
  | .data final left sum, b =>
    ([b], if left ≤ 1 then afterBlock final (adlerStep sum b)
      else .data final (left - 1) (adlerStep sum b))
  | .trailer seen sum, b =>
    ([], if seen.length < 3 then .trailer (seen ++ [b]) sum
      else if seen ++ [b] = adlerBytes sum then .done else .failed)
  | .done, _ => ([], .failed)
  | .failed, _ => ([], .failed)

def machine : Mealy Phase Byte Bytes := ⟨step⟩

/-- The bytes read out of `z`. -/
def inflated (p : Phase) (z : Bytes) : Bytes := (machine.output p z).flatten

def start : Phase := .header []

theorem inflated_append (p : Phase) (z z' : Bytes) :
    inflated p (z ++ z') = inflated p z ++ inflated (machine.after p z) z' := by
  rw [inflated, Mealy.output_append, List.flatten_append]
  rfl

theorem data_reads (final : Bool) (bytes : Bytes) (hne : bytes ≠ []) (sum : Adler) :
    machine.after (.data final bytes.length sum) bytes = afterBlock final (adler sum bytes) ∧
      inflated (.data final bytes.length sum) bytes = bytes := by
  induction bytes generalizing sum with
  | nil => exact absurd rfl hne
  | cons b bytes ih =>
    cases bytes with
    | nil => exact ⟨rfl, rfl⟩
    | cons b' bytes =>
      obtain ⟨hafter, hout⟩ := ih (List.cons_ne_nil _ _) (adlerStep sum b)
      exact ⟨hafter, congrArg (b :: ·) hout⟩

theorem word_toNat (n : Nat) (hn : n ≤ maxBlock) :
    (BitVec.ofNat 8 n).toNat + 256 * (BitVec.ofNat 8 (n / 256)).toNat = n := by
  rw [BitVec.toNat_ofNat, BitVec.toNat_ofNat]
  simp only [maxBlock] at hn
  omega

theorem openBlock_word (final : Bool) (sum : Adler) (n : Nat) (hn : n ≤ maxBlock) :
    openBlock final sum (word n ++ word (maxBlock - n)) =
      if n = 0 then afterBlock final sum else .data final n sum := by
  show (if _ then _ else _) = _
  rw [word_toNat n hn, word_toNat (maxBlock - n) (Nat.sub_le _ _), if_pos (Nat.add_sub_cancel' hn)]
  cases n <;> rfl

/-- From phase `p` the bytes `z` lead to phase `q` and put out `d`. -/
def Runs (p : Phase) (z : Bytes) (q : Phase) (d : Bytes) : Prop :=
  machine.after p z = q ∧ inflated p z = d

theorem Runs.split {p r : Phase} {z z' d : Bytes} (h : Runs p (z ++ z') r d) :
    Runs p z (machine.after p z) (inflated p z) ∧
      Runs (machine.after p z) z' r (inflated (machine.after p z) z') ∧
      d = inflated p z ++ inflated (machine.after p z) z' := by
  obtain ⟨rfl, rfl⟩ := h
  exact ⟨⟨rfl, rfl⟩, ⟨(Mealy.after_append ..).symm, rfl⟩, inflated_append ..⟩

theorem Runs.append {p q r : Phase} {z z' d d' : Bytes} (h : Runs p z q d) (h' : Runs q z' r d') :
    Runs p (z ++ z') r (d ++ d') := by
  obtain ⟨rfl, rfl⟩ := h
  exact ⟨by rw [Mealy.after_append, h'.1], by rw [inflated_append, h'.2]⟩

theorem block_reads (final : Bool) (bytes : Bytes) (hlen : bytes.length ≤ maxBlock) (sum : Adler) :
    Runs (.block sum) (block final bytes) (afterBlock final (adler sum bytes)) bytes := by
  have hhead : Runs (.block sum) [if final then 1 else 0] (.lengths final [] sum) [] := by
    cases final <;> exact ⟨rfl, rfl⟩
  have hlengths : Runs (.lengths final [] sum) (word bytes.length ++ word (maxBlock - bytes.length))
      (if bytes.length = 0 then afterBlock final sum else .data final bytes.length sum) [] :=
    ⟨openBlock_word final sum bytes.length hlen, rfl⟩
  have hdata : Runs (if bytes.length = 0 then afterBlock final sum else .data final bytes.length sum)
      bytes (afterBlock final (adler sum bytes)) bytes := by
    cases bytes with
    | nil => exact ⟨rfl, rfl⟩
    | cons b bytes => exact data_reads final (b :: bytes) (List.cons_ne_nil _ _) sum
  exact hhead.append (hlengths.append hdata)

theorem adler_append (s : Adler) (a b : Bytes) : adler s (a ++ b) = adler (adler s a) b :=
  List.foldl_append

theorem blocks_reads (final : Bool) (bytes : Bytes) (sum : Adler) :
    Runs (.block sum) (blocks final bytes) (afterBlock final (adler sum bytes)) bytes := by
  induction bytes using blocks.induct generalizing sum with
  | case1 bytes hlen =>
    rw [blocks, if_pos hlen]
    exact block_reads final bytes hlen sum
  | case2 bytes hlen ih =>
    have hhead := block_reads false (bytes.take maxBlock) (List.length_take_le _ _) sum
    have hboth := hhead.append (ih (adler sum (bytes.take maxBlock)))
    rw [← adler_append, List.take_append_drop] at hboth
    rw [blocks, if_neg hlen]
    exact hboth

theorem trailer_reads (sum : Adler) : Runs (.trailer [] sum) (adlerBytes sum) .done [] :=
  ⟨show (if adlerBytes sum = adlerBytes sum then Phase.done else .failed) = .done from if_pos rfl, rfl⟩

theorem header_reads : Runs start zlibHeader (.block adlerStart) [] := ⟨by decide, by decide⟩

theorem failed_stays (z : Bytes) : machine.after .failed z = .failed := by
  induction z with
  | nil => rfl
  | cons b z ih => exact ih

/-! ### The decompressor -/

/-- `queue` is what it has read out and not yet written. -/
structure Inflater where
  phase : Phase
  queue : Bytes
  deriving DecidableEq, Repr

namespace Inflater

def read (s : Inflater) (input : Bytes) : Inflater :=
  ⟨machine.after s.phase input, s.queue ++ inflated s.phase input⟩

def status (s : Inflater) : MZStatus := if s.phase = .done ∧ s.queue = [] then .streamEnd else .ok

def write (s : Inflater) (n : Nat) : Inflater := {s with queue := s.queue.drop n}

instance : Inflate Inflater where
  resetAs _ := ⟨start, []⟩
  inflate s input n :=
    if input = [] ∧ s.queue = [] then (⟨0, [], .error .buf⟩, s)
    else if (s.read input).phase = .failed then
      (⟨input.length, [], .error .data⟩, s.read input)
    else (⟨input.length, (s.read input).queue.take n, .ok ((s.read input).write n).status⟩,
      (s.read input).write n)

/-- From `s` the bytes `z` lead to the end of the stream and yield `d`. -/
def Yields (s : Inflater) (z d : Bytes) : Prop :=
  machine.after s.phase z = .done ∧ s.queue ++ inflated s.phase z = d

theorem Yields.read {s : Inflater} {input z d : Bytes} (h : s.Yields (input ++ z) d) :
    (s.read input).Yields z d := by
  refine ⟨by rw [← h.1, Mealy.after_append]; rfl, ?_⟩
  rw [← h.2, inflated_append, ← List.append_assoc]
  rfl

theorem Yields.ne_failed {s : Inflater} {z d : Bytes} (h : s.Yields z d) : s.phase ≠ .failed := by
  intro hs
  have hdone := h.1
  rw [hs, failed_stays] at hdone
  exact Phase.noConfusion hdone

theorem Yields.inflate {s : Inflater} {z d : Bytes} {input : Bytes} (n : Nat) (h : s.Yields z d)
    (hd : d ≠ []) (hpre : input <+: z) (hin : z ≠ [] → input ≠ []) :
    Inflate.inflate s input n = (⟨input.length, (s.read input).queue.take n,
      .ok ((s.read input).write n).status⟩, (s.read input).write n) := by
  obtain ⟨rest, rfl⟩ := hpre
  have hsome : ¬(input = [] ∧ s.queue = []) := by
    intro h
    obtain ⟨hinput, hqueue⟩ := h
    have hz : input ++ rest = [] := Classical.byContradiction fun hz => hin hz hinput
    apply hd
    rw [← h.2, hqueue, hz]
    rfl
  show ite _ _ _ = _
  rw [if_neg hsome, if_neg h.read.ne_failed]

theorem ideal : Ideal Yields where
  step := by
    intro s z d input n h hd hn hpre hin
    have hcall := h.inflate n hd hpre hin
    obtain ⟨rest, rfl⟩ := hpre
    refine ⟨_, _, _, _, ((s.read input).queue.drop n) ++ inflated (s.read input).phase rest, hcall,
      Nat.le_refl _, List.length_take_le _ _, ?_, ?_⟩
    · rw [← List.append_assoc, List.take_append_drop]
      exact h.read.2.symm
    · rw [List.drop_left]
      exact ⟨h.read.1, rfl⟩
  whole := by
    intro s z d n h hd hn
    have hread : (s.read z).queue = d := h.2
    rw [h.inflate n hd (List.prefix_refl z) id, hread]
    exact fun he => (List.take_eq_nil_iff.mp he).elim (Nat.ne_of_gt hn) hd
  consumes := by
    intro s z d n h hd hn _
    rw [h.inflate n hd (List.prefix_refl z) id]

theorem bounded : Inflate.Bounded Inflater := by
  intro s s' input n result hcall
  simp only [Inflate.inflate] at hcall
  split at hcall
  · cases hcall
    exact ⟨Nat.zero_le _, Nat.zero_le _⟩
  · split at hcall <;> cases hcall
    · exact ⟨Nat.le_refl _, Nat.zero_le _⟩
    · exact ⟨Nat.le_refl _, List.length_take_le _ _⟩

end Inflater

/-! ### The compressor -/

/-- `held` is the input that is in no block yet, `sum` the checksum of what is, `queue`
what is compressed and not yet written; `reader` is where reading all that was written
leads. -/
structure Deflater where
  begun : Bool
  finished : Bool
  held : Bytes
  sum : Adler
  queue : Bytes
  reader : Phase
  deriving DecidableEq, Repr

namespace Deflater

/-- The header, if it is still to come. -/
def lead (k : Deflater) : Bytes := if k.begun then [] else zlibHeader

def feed (k : Deflater) (data : Bytes) : MZFlush → Deflater
  | .none => {k with held := k.held ++ data}
  | .sync => {k with
      begun := true
      held := []
      sum := adler k.sum (k.held ++ data)
      queue := k.queue ++ (k.lead ++ blocks false (k.held ++ data) ++ block false [])}
  | .finish => {k with
      begun := true
      finished := true
      held := []
      sum := adler k.sum (k.held ++ data)
      queue := k.queue ++ (k.lead ++ blocks true (k.held ++ data) ++
        adlerBytes (adler k.sum (k.held ++ data)))}

def write (k : Deflater) (n : Nat) : Deflater :=
  {k with queue := k.queue.drop n, reader := machine.after k.reader (k.queue.take n)}

def status (k : Deflater) : MZStatus := if k.finished ∧ k.queue = [] then .streamEnd else .ok

/-- Pending output that fills the room goes first, alone. -/
instance : Deflate Deflater where
  reset _ := ⟨false, false, [], adlerStart, [], start⟩
  deflate k data n flush :=
    if n = 0 ∨ k.finished ∧ flush ≠ .finish then (⟨0, [], .error .buf⟩, k)
    else if k.finished ∨ n ≤ k.queue.length then
      (⟨0, k.queue.take n, .ok (k.write n).status⟩, k.write n)
    else if data = [] ∧ flush = .none ∧ k.queue = [] then (⟨0, [], .error .buf⟩, k)
    else (⟨data.length, (k.feed data flush).queue.take n, .ok ((k.feed data flush).write n).status⟩,
      (k.feed data flush).write n)

/-- The output to come if nothing more is fed. -/
def pending (k : Deflater) : Bytes := k.queue ++ if k.finished then [] else k.lead

/-- Where reading that leads. -/
def goal (k : Deflater) : Phase := if k.finished then .done else .block k.sum

def Sent (k : Deflater) (output input : Bytes) : Prop :=
  ∃ d d', Runs start output k.reader d ∧ Runs k.reader k.pending k.goal d' ∧
    input = d ++ d' ++ k.held ∧ (k.finished → k.held = [])

def Complete (output input : Bytes) : Prop := Runs start output .done input

theorem pending_write (k : Deflater) (n : Nat) :
    k.pending = k.queue.take n ++ (k.write n).pending := by
  show k.queue ++ _ = k.queue.take n ++ (k.queue.drop n ++ _)
  rw [← List.append_assoc, List.take_append_drop]
  rfl

theorem Sent.write {k : Deflater} {output input : Bytes} (h : Sent k output input) (n : Nat) :
    Sent (k.write n) (output ++ k.queue.take n) input := by
  obtain ⟨d, d', hout, hpending, rfl, hheld⟩ := h
  rw [pending_write k n] at hpending
  obtain ⟨hwritten, hleft, rfl⟩ := hpending.split
  exact ⟨_, _, hout.append hwritten, hleft, by simp only [List.append_assoc]; rfl, hheld⟩

theorem Sent.feed {k : Deflater} {output input : Bytes} (h : Sent k output input)
    (hgoing : k.finished = false) (data : Bytes) (flush : MZFlush) :
    Sent (k.feed data flush) output (input ++ data) := by
  obtain ⟨d, d', hout, hpending, rfl, -⟩ := h
  have hblock : Runs k.reader (k.queue ++ k.lead) (.block k.sum) d' := by
    simpa only [pending, goal, hgoing, Bool.false_eq_true, if_false] using hpending
  cases flush with
  | none =>
    refine ⟨d, d', hout, hpending, ?_, fun hk => absurd hk (by simp [Deflater.feed, hgoing])⟩
    show d ++ d' ++ k.held ++ data = d ++ d' ++ (k.held ++ data)
    simp only [List.append_assoc]
  | sync =>
    have hall := hblock.append ((blocks_reads false (k.held ++ data) k.sum).append
      (block_reads false [] (Nat.zero_le _) _))
    rw [List.append_nil] at hall
    refine ⟨d, d' ++ (k.held ++ data), hout, ?_, by simp [Deflater.feed], fun _ => rfl⟩
    simpa [pending, goal, Deflater.feed, hgoing, Deflater.lead, afterBlock, adler] using hall
  | finish =>
    have hall := hblock.append ((blocks_reads true (k.held ++ data) k.sum).append (trailer_reads _))
    rw [List.append_nil] at hall
    refine ⟨d, d' ++ (k.held ++ data), hout, ?_, by simp [Deflater.feed], fun _ => rfl⟩
    simpa [pending, goal, Deflater.feed, hgoing, Deflater.lead] using hall

/-- What a call that succeeds does. -/
theorem deflate_cases {k k' : Deflater} {data : Bytes} {n : Nat} {flush : MZFlush}
    {result : StreamResult} {status : MZStatus}
    (h : Deflate.deflate k data n flush = (result, k')) (hok : result.status = .ok status) :
    ∃ fed, (fed = k ∧ result.bytesConsumed = 0 ∨
        k.finished = false ∧ fed = k.feed data flush ∧ result.bytesConsumed = data.length) ∧
      result.written = fed.queue.take n ∧ k' = fed.write n ∧ status = k'.status := by
  change (if _ then _ else if _ then _ else if _ then _ else _) = (result, k') at h
  split at h
  · cases h
    cases hok
  · split at h
    · cases h
      cases hok
      exact ⟨k, .inl ⟨rfl, rfl⟩, rfl, rfl, rfl⟩
    · next hroom =>
      split at h
      · cases h
        cases hok
      · cases h
        cases hok
        have hgoing : k.finished = false := by
          cases hk : k.finished
          · rfl
          · exact absurd (.inl hk) hroom
        exact ⟨k.feed data flush, .inr ⟨hgoing, rfl, rfl⟩, rfl, rfl, rfl⟩

theorem Sent.complete {k : Deflater} {output input : Bytes} (h : Sent k output input)
    (hstatus : k.status = .streamEnd) : Complete output input := by
  obtain ⟨d, d', hout, hpending, rfl, hheld⟩ := h
  have hend : k.finished = true ∧ k.queue = [] := by
    unfold status at hstatus
    split at hstatus
    · assumption
    · cases hstatus
  simp only [pending, goal, hend.1, hend.2, if_true, List.append_nil] at hpending
  have hall := hout.append hpending
  rw [List.append_nil] at hall
  rwa [hheld hend.1, List.append_nil]

theorem deflating : Deflating Sent Complete where
  reset _ := ⟨[], [], ⟨rfl, rfl⟩, header_reads, rfl, fun hk => Bool.noConfusion hk⟩
  call := by
    intro k k' output input data n flush result h hcall status hok
    obtain ⟨fed, hfed, hwritten, rfl, rfl⟩ := deflate_cases hcall hok
    have hsent : Sent fed output (input ++ data.take result.bytesConsumed) := by
      rcases hfed with ⟨rfl, hnone⟩ | ⟨hgoing, rfl, hall⟩
      · rwa [hnone, List.take_zero, List.append_nil]
      · rw [hall, List.take_length]
        exact h.feed hgoing data flush
    have hle : result.bytesConsumed ≤ data.length := by
      rcases hfed with ⟨-, hnone⟩ | ⟨-, -, hall⟩ <;> omega
    rw [hwritten]
    exact ⟨hle, List.length_take_le _ _, hsent.write n, (hsent.write n).complete⟩

theorem bounded : Deflate.Bounded Deflater := by
  intro k k' data n flush result hcall
  change (if _ then _ else if _ then _ else if _ then _ else _) = (result, k') at hcall
  split at hcall
  · cases hcall
    exact ⟨Nat.zero_le _, Nat.zero_le _⟩
  · split at hcall
    · cases hcall
      exact ⟨Nat.zero_le _, List.length_take_le _ _⟩
    · split at hcall <;> cases hcall
      · exact ⟨Nat.zero_le _, Nat.zero_le _⟩
      · exact ⟨Nat.le_refl _, List.length_take_le _ _⟩

/-- How much is still to come if it is told to finish. -/
def remaining (k : Deflater) : Nat :=
  (if k.finished then k.queue else (k.feed [] .finish).queue).length

theorem remaining_write {k : Deflater} {n : Nat} (hn : 0 < n)
    (hleft : k.finished → (k.write n).queue ≠ [])
    (hqueue : k.finished = false → n ≤ k.queue.length) : (k.write n).remaining < k.remaining := by
  cases hk : k.finished with
  | true =>
    have hne := List.length_pos_iff.mpr (hleft hk)
    simp only [remaining, write, hk, if_true, List.length_drop] at hne ⊢
    omega
  | false =>
    have hle := hqueue hk
    simp only [remaining, write, hk, feed, lead, Bool.false_eq_true, if_false, List.length_append,
      List.length_drop]
    omega

theorem streaming : Streaming Sent Complete queue (fun k => k.finished = false) remaining where
  toDeflating := deflating
  fresh _ := rfl
  starves := by
    intro k n hgoing hn hqueue
    have hcall : Deflate.deflate k [] n .none = (⟨0, [], .error .buf⟩, k) := by
      show ite _ _ _ = _
      rw [if_neg (by simp [Nat.ne_of_gt hn, hgoing]), if_neg (by simp [hgoing, hqueue, Nat.ne_of_gt hn]),
        if_pos ⟨rfl, rfl, hqueue⟩]
    rw [hcall]
  goes := by
    intro k k' data n result hgoing hn hwork hcall
    change ite _ _ _ = _ at hcall
    rw [if_neg (by simp [Nat.ne_of_gt hn, hgoing])] at hcall
    split at hcall
    next hroom =>
      cases hcall
      have hle : n ≤ k.queue.length := hroom.resolve_left (by simp [hgoing])
      refine ⟨⟨_, rfl⟩, hgoing, fun _ _ => ?_⟩
      simp only [write, List.length_drop]
      omega
    next =>
      rw [if_neg (fun h => hwork ⟨h.1, h.2.2⟩)] at hcall
      cases hcall
      exact ⟨⟨_, rfl⟩, hgoing, fun hdata hnone => absurd (List.length_eq_zero_iff.mp hnone) hdata⟩
  finishes := by
    intro k k' output input n result _ hn hcall
    change ite _ _ _ = _ at hcall
    rw [if_neg (by simp [Nat.ne_of_gt hn])] at hcall
    split at hcall
    next hroom =>
      cases hcall
      refine ⟨_, rfl, fun hgoing => remaining_write hn (fun hk hnone => hgoing ?_) fun hk => ?_⟩
      · exact if_pos ⟨hk, hnone⟩
      · exact hroom.resolve_left (by simp [hk])
    next hroom =>
      rw [if_neg (by simp)] at hcall
      cases hcall
      have hgoing : k.finished = false := by
        cases hk : k.finished
        · rfl
        · exact absurd (.inl hk) hroom
      refine ⟨_, rfl, fun hmore => ?_⟩
      have hfed : (k.feed [] .finish).remaining = k.remaining := by
        simp only [remaining, hgoing, Bool.false_eq_true, if_false]
        rfl
      rw [← hfed]
      refine remaining_write hn (fun _ hnone => hmore ?_) fun hk => ?_
      · exact if_pos ⟨rfl, hnone⟩
      · cases hk

theorem drains : Deflate.Drains queue := by
  intro k k' data n result hcall hend
  obtain ⟨fed, -, -, rfl, hstatus⟩ := deflate_cases hcall hend
  have hdone : (fed.write n).finished = true ∧ (fed.write n).queue = [] := by
    by_contra hne
    cases hstatus.trans (if_neg hne)
  exact hdone.2

/-- With nothing held back. -/
def Synced (k : Deflater) (output input : Bytes) : Prop :=
  Sent k output input ∧ k.held = [] ∧ k.finished = false

/-- The data in what is pending. -/
def carried (k : Deflater) : Bytes := inflated k.reader k.pending

theorem sync_held {k : Deflater} {data : Bytes} {n : Nat} (hn : 0 < n) (hgoing : k.finished = false)
    (hroom : n ≤ k.queue.length) : Deflate.deflate k data n .sync =
      (⟨0, k.queue.take n, .ok (k.write n).status⟩, k.write n) := by
  show ite _ _ _ = _
  rw [if_neg (by simp [Nat.ne_of_gt hn, hgoing]), if_pos (.inr hroom)]

theorem sync_fed {k : Deflater} {data : Bytes} {n : Nat} (hgoing : k.finished = false)
    (hroom : k.queue.length < n) : Deflate.deflate k data n .sync =
      (⟨data.length, (k.feed data .sync).queue.take n, .ok ((k.feed data .sync).write n).status⟩,
        (k.feed data .sync).write n) := by
  have hn : n ≠ 0 := by omega
  show ite _ _ _ = _
  rw [if_neg (by simp [hn, hgoing]), if_neg (by simp [hgoing, hroom]), if_neg (by simp)]

theorem syncFlushing : SyncFlushing Synced pending (inflated start) where
  reset k := ⟨deflating.reset k, rfl, rfl⟩
  call := by
    intro k output input n data hn ⟨hsent, hheld, hgoing⟩
    by_cases hroom : n ≤ k.queue.length
    · refine ⟨_, _, _, _, sync_held hn hgoing hroom, Nat.zero_le _, ⟨?_, hheld, hgoing⟩, fun _ _ => ?_,
        fun hleft => ?_⟩
      · rw [List.take_zero, List.append_nil]
        exact hsent.write n
      · rw [pending_write k n, List.length_append, List.length_take]
        omega
      · rw [List.length_take] at hleft
        omega
    · refine ⟨_, _, _, _, sync_fed hgoing (by omega), Nat.le_refl _, ⟨?_, rfl, hgoing⟩,
        fun hdata hnone => ?_, fun hleft => ⟨rfl, ?_⟩⟩
      · rw [List.take_length]
        exact (hsent.feed hgoing data .sync).write n
      · exact absurd (List.length_eq_zero_iff.mp hnone) hdata
      · rw [List.length_take] at hleft
        have hout : ((k.feed data .sync).write n).queue = [] := List.drop_eq_nil_iff.mpr (by omega)
        have hlead : ((k.feed data .sync).write n).lead = [] := rfl
        rw [pending, hout, hlead, ite_self]
        rfl
  enough := by
    intro k output input data h
    have hgoing := h.2.2
    refine ⟨k.queue.length + (k.feed data .sync).queue.length + 1, fun n hn => ?_⟩
    rw [sync_fed hgoing (by omega), List.length_take]
    omega
  synced := by
    intro k output input h
    obtain ⟨⟨d, d', hout, hpending, rfl, -⟩, hheld, -⟩ := h
    rw [hheld, List.append_nil]
    exact (hout.append hpending).2
  grows z z' := by
    rw [inflated_append]
    exact List.prefix_append _ _

end Deflater

/-- What the compressor calls complete is what the decompressor reads. -/
theorem Deflater.Complete.yields {output input : Bytes} (h : Deflater.Complete output input)
    (s : Inflater) : (Inflate.resetAs s).Yields output input := h

end Protocraft.Stream.Stored
