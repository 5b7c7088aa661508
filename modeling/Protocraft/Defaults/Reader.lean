import Protocraft.Stream.Polled
import Protocraft.Stream.Source
import Protocraft.Defaults.AsyncWriter

/-! The decrypting readers, and what the two ends of an encrypted stream make of each
other.

Each read decrypts in place what the reader underneath has just put into the buffer,
and nothing else, so the cipher state advances with the bytes taken and a read that
yields none, or fails, leaves it alone. The polled reader yields, poll by poll, the
decryption of what the same polls of the reader underneath would have yielded
(`AsyncDecryptionReader.decrypted_run`). -/
namespace Protocraft
open Protocraft.Stream

structure DecryptionReader (ρ : Type) where
  decryptor : Cfb8
  reader : ρ

namespace DecryptionReader
variable {ρ : Type}

def read [Read ρ] (n : Nat) : Action IoError (DecryptionReader ρ) Bytes := fun d =>
  match Read.read n d.reader with
  | (.error e, reader) => (.error e, {d with reader := reader})
  | (.ok bytes, reader) =>
    if bytes.length = 0 then (.ok [], {d with reader := reader})
    else (.ok (Cfb8.decryptor.output d.decryptor bytes),
      ⟨Cfb8.decryptor.after d.decryptor bytes, reader⟩)

instance [Read ρ] : Read (DecryptionReader ρ) := ⟨read⟩

/-- Holds the decryption of what the reader underneath holds. -/
def Decrypting (R : ρ → Bytes → Prop) (d : DecryptionReader ρ) (plain : Bytes) : Prop :=
  ∃ c, R d.reader c ∧ plain = Cfb8.decryptor.output d.decryptor c

variable [Read ρ] {R : ρ → Bytes → Prop} {Stalled : ρ → Prop}

theorem read_ok {n : Nat} {d : DecryptionReader ρ} {bytes : Bytes} {reader : ρ}
    (h : Read.read n d.reader = (.ok bytes, reader)) :
    Read.read n d = (.ok (Cfb8.decryptor.output d.decryptor bytes),
      ⟨Cfb8.decryptor.after d.decryptor bytes, reader⟩) := by
  by_cases hbytes : bytes = []
  · subst hbytes
    simp [Read.read, read, h]
  · simp [Read.read, read, h, hbytes]

theorem read_error {n : Nat} {d : DecryptionReader ρ} {e : IoError} {reader : ρ}
    (h : Read.read n d.reader = (.error e, reader)) :
    Read.read n d = (.error e, {d with reader := reader}) := by
  simp [Read.read, read, h]

theorem tracks (h : Tracks R) : Tracks (Decrypting R) where
  ok := by
    intro d plain n bs d' h hread
    obtain ⟨c, hr, rfl⟩ := h
    rcases hinner : Read.read n d.reader with ⟨e | bytes, reader⟩
    · rw [read_error hinner] at hread
      cases hread
    · rw [read_ok hinner] at hread
      cases hread
      obtain ⟨c', rfl, hlen, hr'⟩ := h.ok hr hinner
      exact ⟨_, Mealy.output_append _ _ _ _, by simpa using hlen, c', hr', rfl⟩
  error := by
    intro d plain n e d' h hread
    obtain ⟨c, hr, rfl⟩ := h
    rcases hinner : Read.read n d.reader with ⟨e' | bytes, reader⟩
    · rw [read_error hinner] at hread
      cases hread
      exact ⟨c, h.error hr hinner, rfl⟩
    · rw [read_ok hinner] at hread
      cases hread

theorem delivers (h : Delivers R Stalled) :
    Delivers (Decrypting R) (fun d : DecryptionReader ρ => Stalled d.reader) where
  more := by
    intro d plain n hn hplain h
    obtain ⟨c, hr, rfl⟩ := h
    have hc : c ≠ [] := by
      intro heq
      subst heq
      exact hplain rfl
    obtain ⟨bs, c', r', hinner, rfl, hlen, hr', hnone, hstays, hback⟩ := h.more hn hc hr
    refine ⟨_, _, _, read_ok hinner, Mealy.output_append _ _ _ _, by simpa using hlen,
      ⟨c', hr', rfl⟩, fun he => hnone ?_, hstays, fun hne => hback ?_⟩
    · simpa using congrArg List.length he
    · intro heq
      subst heq
      exact hne rfl
  ended := by
    intro d n hn h
    obtain ⟨c, hr, he⟩ := h
    obtain rfl : c = [] := by simpa using congrArg List.length he.symm
    obtain ⟨r', hinner, hr', hs⟩ := h.ended hn hr
    exact ⟨_, read_ok hinner, ⟨[], hr', rfl⟩, hs⟩

end DecryptionReader

/-! ### Polled -/

structure AsyncDecryptionReader (ρ : Type) where
  decryptor : Cfb8
  reader : ρ

namespace AsyncDecryptionReader
variable {ρ : Type} [AsyncRead ρ]

def pollRead (buf : ReadBuf) (d : AsyncDecryptionReader ρ) :
    PollIo Unit × ReadBuf × AsyncDecryptionReader ρ :=
  let originalFill := buf.filled.length
  match AsyncRead.pollRead buf d.reader with
  | (.ready (.ok ()), buf, reader) =>
    -- Only what was just read.
    let read := buf.filled.drop originalFill
    (.ready (.ok ()),
      {buf with filled := buf.filled.take originalFill ++ Cfb8.decryptor.output d.decryptor read},
      ⟨Cfb8.decryptor.after d.decryptor read, reader⟩)
  | (result, buf, reader) => (result, buf, {d with reader := reader})

instance : AsyncRead (AsyncDecryptionReader ρ) := ⟨pollRead⟩

theorem pollRead_ready {buf buf' : ReadBuf} {d : AsyncDecryptionReader ρ} {reader : ρ}
    (h : AsyncRead.pollRead buf d.reader = (.ready (.ok ()), buf', reader)) :
    AsyncRead.pollRead buf d = (.ready (.ok ()),
      {buf' with filled := buf'.filled.take buf.filled.length ++
        Cfb8.decryptor.output d.decryptor (buf'.filled.drop buf.filled.length)},
      ⟨Cfb8.decryptor.after d.decryptor (buf'.filled.drop buf.filled.length), reader⟩) := by
  simp only [AsyncRead.pollRead, pollRead, h]

theorem pollRead_waited {buf buf' : ReadBuf} {d : AsyncDecryptionReader ρ} {reply : PollIo Unit}
    {reader : ρ} (h : AsyncRead.pollRead buf d.reader = (reply, buf', reader))
    (hreply : reply ≠ .ready (.ok ())) :
    AsyncRead.pollRead buf d = (reply, buf', {d with reader := reader}) := by
  rcases reply with _ | _ | _
  · simp only [AsyncRead.pollRead, pollRead, h]
  · simp only [AsyncRead.pollRead, pollRead, h]
  · exact absurd rfl hreply

theorem pollRead_reply (buf : ReadBuf) (d : AsyncDecryptionReader ρ) :
    (AsyncRead.pollRead buf d).1 = (AsyncRead.pollRead buf d.reader).1 := by
  rcases hinner : AsyncRead.pollRead buf d.reader with ⟨reply, buf', reader⟩
  by_cases hreply : reply = .ready (.ok ())
  · subst hreply
    rw [pollRead_ready hinner]
  · rw [pollRead_waited hinner hreply]

/-- Holds the decryption of what the reader underneath holds. -/
def Decrypting (R : ρ → Bytes → Prop) (d : AsyncDecryptionReader ρ) (plain : Bytes) : Prop :=
  ∃ c, R d.reader c ∧ plain = Cfb8.decryptor.output d.decryptor c

variable {R : ρ → Bytes → Prop}

/-- What the caller's buffer held stays as it is, and the bytes decrypted go behind it. -/
theorem tracks (h : AsyncTracks R) : AsyncTracks (Decrypting R) where
  ready := by
    intro d plain buf buf' d' h hpoll
    obtain ⟨c, hr, rfl⟩ := h
    rcases hinner : AsyncRead.pollRead buf d.reader with ⟨reply, buf₁, r₁⟩
    by_cases hreply : reply = .ready (.ok ())
    · subst hreply
      rw [pollRead_ready hinner] at hpoll
      cases hpoll
      obtain ⟨bytes, c', rfl, hroom, rfl, hr'⟩ := h.ready hr hinner
      refine ⟨Cfb8.decryptor.output d.decryptor bytes, _, ?_, by simpa using hroom,
        Mealy.output_append _ _ _ _, c', hr', ?_⟩
      · simp [ReadBuf.put]
      · simp [ReadBuf.put]
    · rw [pollRead_waited hinner hreply] at hpoll
      cases hpoll
      exact absurd rfl hreply
  waited := by
    intro d plain buf reply buf' d' h hpoll hreply'
    obtain ⟨c, hr, rfl⟩ := h
    rcases hinner : AsyncRead.pollRead buf d.reader with ⟨reply₁, buf₁, r₁⟩
    by_cases hreply : reply₁ = .ready (.ok ())
    · subst hreply
      rw [pollRead_ready hinner] at hpoll
      cases hpoll
      exact absurd rfl hreply'
    · rw [pollRead_waited hinner hreply] at hpoll
      cases hpoll
      obtain ⟨rfl, hr'⟩ := h.waited hr hinner hreply
      exact ⟨rfl, c, hr', rfl⟩

/-- Polls of the reader underneath, as polls of this one. -/
def decrypted (cipher : Cfb8) (t : Polling ρ) : Polling (AsyncDecryptionReader ρ) :=
  ⟨⟨Cfb8.decryptor.after cipher t.yielded, t.reader⟩, Cfb8.decryptor.output cipher t.yielded⟩

theorem decrypted_step (h : AsyncTracks R) (cipher : Cfb8) {t : Polling ρ} {c : Bytes}
    (hr : R t.reader c) (buf : ReadBuf) :
    (decrypted cipher t).step buf = decrypted cipher (t.step buf) := by
  rcases hinner : AsyncRead.pollRead buf t.reader with ⟨reply, buf', r⟩
  by_cases hreply : reply = .ready (.ok ())
  · subst hreply
    obtain ⟨bytes, -, rfl, -⟩ := h.ready hr hinner
    have hpoll := pollRead_ready (d := (decrypted cipher t).reader) hinner
    simp only [decrypted, Polling.step, ReadBuf.put, List.drop_left, List.take_left] at hinner hpoll ⊢
    simp only [hinner, hpoll, List.drop_left, Mealy.output_append, Mealy.after_append]
  · obtain ⟨rfl, -⟩ := h.waited hr hinner hreply
    have hpoll := pollRead_waited (d := (decrypted cipher t).reader) hinner hreply
    simp only [decrypted, Polling.step] at hinner hpoll ⊢
    simp only [hinner, hpoll, List.drop_length, List.append_nil]

/-- Whatever polls the two get, this one has taken from the reader underneath what that would have
yielded by itself, and has yielded its decryption. -/
theorem decrypted_run (h : AsyncTracks R) (cipher : Cfb8) {t : Polling ρ} {c : Bytes} (hr : R t.reader c)
    (bufs : List ReadBuf) : (decrypted cipher t).run bufs = decrypted cipher (t.run bufs) := by
  induction bufs generalizing t c with
  | nil => rfl
  | cons buf bufs ih =>
    obtain ⟨c', hr', -⟩ := h.step hr buf
    show ((decrypted cipher t).step buf).run bufs = decrypted cipher ((t.step buf).run bufs)
    rw [decrypted_step h cipher hr buf, ih hr']

section Follows
variable {τ : Type} [Read τ] {early : IoError} {A : ρ → τ → Prop}

/-- The same cipher state on both. -/
def SameDecryptor (A : ρ → τ → Prop) (a : AsyncDecryptionReader ρ) (r : DecryptionReader τ) : Prop :=
  A a.reader r.reader ∧ a.decryptor = r.decryptor

theorem follows (h : Follows early A) :
    Follows early (SameDecryptor A : AsyncDecryptionReader ρ → DecryptionReader τ → Prop) := by
  intro d r buf hr
  obtain ⟨decryptor, a⟩ := d
  obtain ⟨hinner, hdecryptor⟩ : A a r.reader ∧ decryptor = r.decryptor := hr
  subst hdecryptor
  have hanswer := h buf hinner
  clear hinner
  generalize hreply : Read.read buf.room r.reader = reply at hanswer
  induction hanswer with
  | @later a a' hpoll _ ih =>
    refine .later ?_ ih
    exact pollRead_waited (d := ⟨r.decryptor, a⟩) hpoll (by simp)
  | @read bytes a a' r' hpoll hread hr' =>
    subst hread
    have hdecrypted : AsyncRead.pollRead buf (AsyncDecryptionReader.mk r.decryptor a) =
        (.ready (.ok ()), buf.put (Cfb8.decryptor.output r.decryptor bytes),
          ⟨Cfb8.decryptor.after r.decryptor bytes, a'⟩) := by
      rw [pollRead_ready (d := ⟨r.decryptor, a⟩) hpoll]
      simp [ReadBuf.put]
    exact .read hdecrypted (DecryptionReader.read_ok hreply) ⟨hr', rfl⟩
  | @failed e a a' r' hpoll hread hr' =>
    subst hread
    have hwaited : AsyncRead.pollRead buf (AsyncDecryptionReader.mk r.decryptor a) =
        (.ready (.error (reworded early e)), buf, ⟨r.decryptor, a'⟩) :=
      pollRead_waited (d := ⟨r.decryptor, a⟩) hpoll (by simp)
    exact .failed hwaited (DecryptionReader.read_error hreply) ⟨hr', rfl⟩

end Follows

end AsyncDecryptionReader

/-! ### The readers of a provider -/

/-- The source's third state, `Poisoned`, stands in only while a call runs. -/
inductive DefaultReader (ρ : Type) where
  | standard (reader : ρ)
  | decrypt (reader : DecryptionReader ρ)

namespace DefaultReader
variable {ρ : Type}

/-- `None` where the source panics. -/
def withEncryption (aes : Block → Block → Block) (key : Block) :
    DefaultReader ρ → Option (DefaultReader ρ)
  | standard reader => some (.decrypt ⟨.new aes key, reader⟩)
  | decrypt _ => none

def read [Read ρ] (n : Nat) : Action IoError (DefaultReader ρ) Bytes
  | standard reader => ((Read.read n reader).1, .standard (Read.read n reader).2)
  | decrypt reader => ((Read.read n reader).1, .decrypt (Read.read n reader).2)

instance [Read ρ] : Read (DefaultReader ρ) := ⟨read⟩

instance [SetBlocking ρ] : SetBlocking (DefaultReader ρ) where
  setBlocking blocking := fun d => match d with
    | standard reader =>
      ((SetBlocking.setBlocking blocking reader).1,
        .standard (SetBlocking.setBlocking blocking reader).2)
    | decrypt reader =>
      ((SetBlocking.setBlocking blocking reader.reader).1,
        .decrypt {reader with reader := (SetBlocking.setBlocking blocking reader.reader).2})

/-- The reader underneath. -/
def source : DefaultReader ρ → ρ
  | standard reader => reader
  | decrypt reader => reader.reader

/-- Holds what the reader underneath does, or its decryption. -/
def Holding (R : ρ → Bytes → Prop) : DefaultReader ρ → Bytes → Prop
  | standard reader, c => R reader c
  | decrypt reader, c => reader.Decrypting R c

theorem delivers [Read ρ] {R : ρ → Bytes → Prop} (h : Delivers R Never) :
    Delivers (Holding R) Never where
  more := by
    intro s c n hn hc hr
    obtain r | d := s
    · obtain ⟨bs, c', r', hread, hsplit, hlen, hr', hmore⟩ := h.more hn hc hr
      exact ⟨bs, c', .standard r', by simp [Read.read, read, hread], hsplit, hlen, hr', hmore⟩
    · obtain ⟨bs, c', d', hread, hsplit, hlen, hr', hmore⟩ := (DecryptionReader.delivers h).more hn hc hr
      exact ⟨bs, c', .decrypt d', by simp [Read.read, read] at hread ⊢; simp [hread], hsplit,
        hlen, hr', hmore⟩
  ended := by
    intro s n hn hr
    obtain r | d := s
    · obtain ⟨r', hread, hr', hs⟩ := h.ended hn hr
      exact ⟨.standard r', by simp [Read.read, read, hread], hr', hs⟩
    · obtain ⟨d', hread, hr', hs⟩ := (DecryptionReader.delivers h).ended hn hr
      exact ⟨.decrypt d', by simp [Read.read, read] at hread ⊢; simp [hread], hr', hs⟩

end DefaultReader

/-! ### Both ends -/

/-- What reading the ciphertext of `plain` with cipher state `cipher` comes to, however
it is read: what was yielded and what is left to decrypt are together `plain`, and a
reader that does not fail yields all of it. A polled one answers each poll as the reader
underneath does, takes what the same polls of that would yield and yields its decryption;
and where that puts each read off only so long, all of `plain` to a caller that awaits it. -/
structure ReadsBack (cipher : Cfb8) (plain : Bytes) : Prop where
  reads : ∀ {ρ : Type} [Read ρ] {R : ρ → Bytes → Prop}, Tracks R → ∀ {reader : ρ},
    R reader (Cfb8.encryptor.output cipher plain) → ∀ sizes,
    let s := (Reading.mk (DecryptionReader.mk cipher reader) []).run sizes
    ∃ left, R s.reader.reader left ∧ plain = s.yielded ++ Cfb8.decryptor.output s.reader.decryptor left
  polls : ∀ {ρ : Type} [AsyncRead ρ] {R : ρ → Bytes → Prop}, AsyncTracks R → ∀ {reader : ρ},
    R reader (Cfb8.encryptor.output cipher plain) → ∀ bufs,
    let s := (Polling.mk (AsyncDecryptionReader.mk cipher reader) []).run bufs
    let raw := (Polling.mk reader []).run bufs
    s.reader.reader = raw.reader ∧ s.yielded = Cfb8.decryptor.output cipher raw.yielded ∧
      ∃ left, R s.reader.reader left ∧ plain = s.yielded ++ Cfb8.decryptor.output s.reader.decryptor left
  answered : ∀ {ρ : Type} [AsyncRead ρ] (buf : ReadBuf) (d : AsyncDecryptionReader ρ),
    (AsyncRead.pollRead buf d).1 = (AsyncRead.pollRead buf d.reader).1
  whole : ∀ {ρ : Type} [Read ρ] {R : ρ → Bytes → Prop}, Delivers R Never → ∀ {reader : ρ},
    R reader (Cfb8.encryptor.output cipher plain) →
    (readExact plain.length (DecryptionReader.mk cipher reader)).1 = .ok plain
  awaited : ∀ {ρ τ : Type} [AsyncRead ρ] [Read τ] {early : IoError} {A : ρ → τ → Prop}
    {R : τ → Bytes → Prop},
    Follows early A → Delivers R Never → ∀ {reader : ρ} {blocking : τ}, A reader blocking →
    R blocking (Cfb8.encryptor.output cipher plain) → ∃ turns, ∀ more,
    (asyncReadExact early (turns + more) plain.length (AsyncDecryptionReader.mk cipher reader)).1 =
      .ok plain

/-- A read of the whole decrypts the whole. -/
theorem readExact_decrypted {ρ : Type} [Read ρ] {R : ρ → Bytes → Prop} (h : Delivers R Never)
    {cipher : Cfb8} {plain : Bytes} {reader : ρ}
    (hr : R reader (Cfb8.encryptor.output cipher plain)) :
    (readExact plain.length (DecryptionReader.mk cipher reader)).1 = .ok plain := by
  have hdecrypting : DecryptionReader.Decrypting R ⟨cipher, reader⟩ plain :=
    ⟨_, hr, (Cfb8.decrypt_encrypt cipher plain).symm⟩
  obtain ⟨hreply, -⟩ :=
    (readExact_did (DecryptionReader.delivers h) plain.length hdecrypting).exact id
  rw [hreply, exactly, if_pos (Nat.le_refl _), List.take_length]

theorem readsBack (cipher : Cfb8) (plain : Bytes) : ReadsBack cipher plain where
  reads := by
    intro ρ _ R h reader hr sizes
    obtain ⟨_, ⟨left, hleft, rfl⟩, hsplit⟩ := (DecryptionReader.tracks h).run
      (s := ⟨⟨cipher, reader⟩, []⟩) ⟨_, hr, rfl⟩ sizes
    rw [Cfb8.decrypt_encrypt] at hsplit
    exact ⟨left, hleft, hsplit⟩
  polls := by
    intro ρ _ R h reader hr bufs s raw
    have hraw : s = AsyncDecryptionReader.decrypted cipher raw :=
      AsyncDecryptionReader.decrypted_run h cipher (t := ⟨reader, []⟩) hr bufs
    obtain ⟨_, ⟨left, hleft, rfl⟩, hsplit⟩ := (AsyncDecryptionReader.tracks h).run
      (s := ⟨⟨cipher, reader⟩, []⟩) ⟨_, hr, rfl⟩ bufs
    rw [Cfb8.decrypt_encrypt] at hsplit
    exact ⟨by rw [hraw]; rfl, by rw [hraw]; rfl, left, hleft, hsplit⟩
  answered := AsyncDecryptionReader.pollRead_reply
  whole := by
    intro ρ _ R h reader hr
    exact readExact_decrypted h hr
  awaited := by
    intro ρ τ _ _ early A R hfollows hdelivers reader blocking hsame hr
    have hsame' : AsyncDecryptionReader.SameDecryptor A ⟨cipher, reader⟩ ⟨cipher, blocking⟩ :=
      ⟨hsame, rfl⟩
    obtain ⟨turns, a', -, hrun⟩ :=
      asyncReadExact_matches (AsyncDecryptionReader.follows hfollows) plain.length hsame'
    refine ⟨turns, fun more => ?_⟩
    dsimp only at hrun
    rw [hrun more, readExact_decrypted hdelivers hr]
    rfl

/-- **An encrypted stream is read back as it was written**, however it is cut: the
encrypting writer hands its sink, once flushed, the one encryption of the bytes
accepted, whatever its capacity and the calls, and the decrypting readers yield those
bytes, whatever the pieces. -/
theorem encrypted_round_trip {κ ω : Type} [Write ω] {received : ω → Bytes}
    (hlawful : Lawful received) (hreliable : Reliable ω) (k : κ) (start : EncryptionWriter ω)
    (hfresh : start.buffer = []) (ops : List WriteOp) :
    let s := (Session.mk (DefaultWriter.mk k (.encrypt start)) []).run ops
    (∃ w, Write.flush s.writer = (.ok (), w) ∧
      received w.sink = received start.writer ++ Cfb8.encryptor.output start.encryptor s.accepted) ∧
    ReadsBack start.encryptor s.accepted := by
  intro s
  refine ⟨?_, readsBack _ _⟩
  have hrun : s = ((Session.mk start []).run ops).map (fun e => DefaultWriter.mk k (.encrypt e)) :=
    (DefaultWriter.wraps_encrypt k).run ⟨start, []⟩ ops
  have hclean : ∀ ops, Staged.Clean received False start ops :=
    Staged.clean_of_reliable hreliable id start
  obtain ⟨w, hflush⟩ := Staged.flush_reliable hreliable ((Session.mk start []).run ops).writer
  have hreceived := (Staged.run_delivered hlawful hfresh (hclean ops)).2 (hclean _) (by rw [hflush])
  have hwrapped := (DefaultWriter.wraps_encrypt k).flush ((Session.mk start []).run ops).writer
  rw [hflush] at hreceived hwrapped
  rw [hrun]
  exact ⟨DefaultWriter.mk k (.encrypt w), hwrapped, hreceived⟩

theorem encrypted_round_trip_collected :
    let cipher : Cfb8 := ⟨fun _ _ => 1, fun _ => 0⟩
    let s := (Session.mk (DefaultWriter.mk () (.encrypt ⟨cipher, (⟨[]⟩ : Collected), [], 2⟩)) []).run
      [.write [1, 2, 3], .write [], .flush, .write [4]]
    (∃ w, Write.flush s.writer = (.ok (), w) ∧
      w.sink.bytes = [] ++ Cfb8.encryptor.output cipher s.accepted) ∧ ReadsBack cipher s.accepted :=
  encrypted_round_trip Collected.lawful Collected.reliable () _ rfl _

end Protocraft
