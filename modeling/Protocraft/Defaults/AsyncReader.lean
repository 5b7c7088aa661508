import Protocraft.Defaults.Decompression
import Protocraft.Defaults.Reader
import Protocraft.Stream.NonBlocking

/-! The polled readers of the asynchronous providers.

Each of them follows the reader of the synchronous provider that has its name, over any two
transports of which one follows the other: the cipher, the inflate state and the bounds go with
the bytes, so they are where the blocking reader has them whenever a poll is answered. -/
namespace Protocraft
open Protocraft.Stream

/-! ### Decryption -/

namespace AsyncDecryptionReader
variable {α ρ : Type} [AsyncRead α] [Read ρ]

theorem answersAtOnce {ended : IoError} {B : α → ρ → Prop}
    (h : ∀ {a r} (buf : ReadBuf), B a r →
      AnswersAtOnce ended B buf (Read.read buf.room r) (AsyncRead.pollRead buf a))
    {a : AsyncDecryptionReader α} {r : DecryptionReader ρ} (buf : ReadBuf) (hr : SameDecryptor B a r) :
    AnswersAtOnce ended (SameDecryptor B) buf (Read.read buf.room r) (AsyncRead.pollRead buf a) := by
  obtain ⟨hinner, hdecryptor⟩ := hr
  have hanswer := h buf hinner
  generalize hreply : Read.read buf.room r.reader = reply at hanswer
  generalize hpoll : AsyncRead.pollRead buf a.reader = poll at hanswer
  cases hanswer with
  | later hread hblocks hr' =>
    subst hread
    rw [pollRead_waited hpoll (by simp), DecryptionReader.read_error hreply]
    exact .later rfl hblocks ⟨hr', hdecryptor⟩
  | @read bytes a' r' hread hr' =>
    subst hread
    rw [pollRead_ready hpoll, DecryptionReader.read_ok hreply]
    simp only [ReadBuf.put, List.drop_left, List.take_left, hdecryptor]
    have hput : buf.put (Cfb8.decryptor.output r.decryptor bytes) =
        ⟨buf.filled ++ Cfb8.decryptor.output r.decryptor bytes, buf.room - bytes.length⟩ := by
      simp [ReadBuf.put]
    rw [← hput]
    exact .read rfl ⟨hr', rfl⟩
  | failed hread hfails hr' =>
    subst hread
    rw [pollRead_waited hpoll (by simp), DecryptionReader.read_error hreply]
    exact .failed rfl hfails ⟨hr', hdecryptor⟩

end AsyncDecryptionReader

/-! ### The reader of a provider -/

/-- A poisoned reader is only there in the middle of `withEncryption`. -/
inductive AsyncDefaultReader (ρ : Type) where
  | standard (reader : ρ)
  | decrypt (reader : AsyncDecryptionReader ρ)

namespace AsyncDefaultReader
variable {α ρ : Type}

/-- Panics on a reader that decrypts already. -/
def withEncryption (aes : Block → Block → Block) (key : Block) :
    AsyncDefaultReader α → Option (AsyncDefaultReader α)
  | standard reader => some (.decrypt ⟨.new aes key, reader⟩)
  | decrypt _ => none

def pollRead [AsyncRead α] (buf : ReadBuf) :
    AsyncDefaultReader α → PollIo Unit × ReadBuf × AsyncDefaultReader α
  | standard reader =>
    let (reply, buf, reader) := AsyncRead.pollRead buf reader
    (reply, buf, .standard reader)
  | decrypt reader =>
    let (reply, buf, reader) := AsyncRead.pollRead buf reader
    (reply, buf, .decrypt reader)

instance [AsyncRead α] : AsyncRead (AsyncDefaultReader α) := ⟨pollRead⟩

/-- Both decrypt, with the same cipher state, or neither does. -/
inductive SameMode (A : α → ρ → Prop) : AsyncDefaultReader α → DefaultReader ρ → Prop
  | standard {a : α} {r : ρ} (h : A a r) : SameMode A (.standard a) (.standard r)
  | decrypt {a : AsyncDecryptionReader α} {r : DecryptionReader ρ} (h : a.SameDecryptor A r) :
    SameMode A (.decrypt a) (.decrypt r)

/-- Encryption can be switched on at the one when it can at the other. -/
theorem SameMode.withEncryption {A : α → ρ → Prop} {a : AsyncDefaultReader α} {r : DefaultReader ρ}
    (h : SameMode A a r) (aes : Block → Block → Block) (key : Block) :
    Option.Rel (SameMode A) (a.withEncryption aes key) (r.withEncryption aes key) := by
  cases h with
  | standard h => exact .some (.decrypt ⟨h, rfl⟩)
  | decrypt h => exact .none

theorem follows [AsyncRead α] [Read ρ] {early : IoError} {A : α → ρ → Prop} (h : Follows early A) :
    Follows early (SameMode A : AsyncDefaultReader α → DefaultReader ρ → Prop) := by
  intro a r buf hr
  cases hr with
  | standard hr =>
    exact (h buf hr).passes standard DefaultReader.standard (fun _ _ => rfl) fun _ _ => SameMode.standard
  | decrypt hr =>
    exact (AsyncDecryptionReader.follows h buf hr).passes decrypt DefaultReader.decrypt (fun _ _ => rfl)
      fun _ _ => SameMode.decrypt

theorem followsUnblocked [AsyncRead α] [Read ρ] [SetBlocking ρ] {ended : IoError}
    {A : Bool → α → ρ → Prop} (h : FollowsUnblocked ended A) :
    FollowsUnblocked ended fun mode : Bool =>
      (SameMode (A mode) : AsyncDefaultReader α → DefaultReader ρ → Prop) where
  switch := by
    intro mode a r blocking hr
    cases hr with
    | @standard a r hr =>
      obtain ⟨r', hset, hr'⟩ := h.switch blocking hr
      refine ⟨.standard r', ?_, .standard hr'⟩
      show ((SetBlocking.setBlocking blocking r).1,
          DefaultReader.standard (SetBlocking.setBlocking blocking r).2) = _
      rw [hset]
    | @decrypt a r hr =>
      obtain ⟨r', hset, hr'⟩ := h.switch blocking hr.1
      refine ⟨.decrypt ⟨r.decryptor, r'⟩, ?_, .decrypt ⟨hr', hr.2⟩⟩
      show ((SetBlocking.setBlocking blocking r.reader).1,
        DefaultReader.decrypt ⟨r.decryptor, (SetBlocking.setBlocking blocking r.reader).2⟩) = _
      rw [hset]
  read := by
    intro a r buf hr
    cases hr with
    | standard hr => exact (h.read buf hr).passes standard DefaultReader.standard fun _ _ =>
        SameMode.standard
    | decrypt hr =>
      exact (AsyncDecryptionReader.answersAtOnce h.read buf hr).passes decrypt DefaultReader.decrypt
        fun _ _ => SameMode.decrypt

end AsyncDefaultReader

/-! ### Decompression -/

namespace AsyncDecompressionReader
variable {α ρ ι : Type} [Inflate ι] [AsyncBufRead α] [BufRead ρ] {early : IoError} {A : α → ρ → Prop}

/-- The same inflate state on both. -/
def SameState (A : α → ρ → Prop) (a : AsyncDecompressionReader ι α) (d : DecompressionReader ι ρ) :
    Prop :=
  A a.reader d.reader ∧ a.state = d.state

theorem follows (h : FollowsFill early A) :
    Follows early (SameState A : AsyncDecompressionReader ι α → DecompressionReader ι ρ → Prop) := by
  intro d r buf hr
  obtain ⟨state, a⟩ := d
  obtain ⟨hinner, hstate⟩ : A a r.reader ∧ state = r.state := hr
  subst hstate
  have hanswer := h.fill hinner
  clear hinner
  generalize hreply : BufRead.fillBuf r.reader = reply at hanswer
  induction hanswer with
  | @later a a' hpoll _ ih =>
    have hwaited : pollRead buf ⟨r.state, a⟩ = (.pending, buf, ⟨r.state, a'⟩) := by
      rw [pollRead, hpoll]
    exact .later hwaited ih
  | @failed e a a' r' hpoll hfill hr' =>
    subst hfill
    have hfailed : pollRead buf ⟨r.state, a⟩ =
        (.ready (.error (reworded early e)), buf, ⟨r.state, a'⟩) := by
      rw [pollRead, hpoll]
    exact .failed hfailed (DecompressionReader.read_unfilled hreply) ⟨hr', rfl⟩
  | @filled internalBuf a a' r' hpoll hfill hr' =>
    subst hfill
    rcases hcall : Inflate.inflate r.state internalBuf buf.room
        with ⟨⟨bytesConsumed, out, err | status⟩, state⟩
    · have hrefused : pollRead buf ⟨r.state, a⟩ =
          (.ready (.error (reworded early ⟨.other, "Decompression error: " ++ err.debug⟩)), buf,
            ⟨state, a'⟩) := by
        rw [pollRead, hpoll]
        simp only [hcall, reworded_other]
      exact .failed hrefused (DecompressionReader.read_refused hreply hcall) ⟨hr', rfl⟩
    · have hinflated : pollRead buf ⟨r.state, a⟩ =
          (.ready (.ok ()), buf.put out, ⟨state, AsyncBufRead.consume bytesConsumed a'⟩) := by
        rw [pollRead, hpoll]
        simp only [hcall]
      exact .read hinflated (DecompressionReader.read_ok hreply hcall) ⟨h.consume bytesConsumed hr', rfl⟩

end AsyncDecompressionReader

/-! ### `TokioReader` -/

/-- What a provider lends of itself for reading; `FuturesReader` is the same over the other traits. -/
structure TokioReader (ι ρ : Type) where
  state : ι
  reader : ρ

namespace TokioReader
variable {ι α ρ : Type}

instance [AsyncRead α] : AsyncRead (TokioReader ι α) where
  pollRead buf r :=
    let (reply, buf, reader) := AsyncRead.pollRead buf r.reader
    (reply, buf, {r with reader := reader})

def withBound {ε γ : Type} (bound : Nat) (m : Action ε (TokioReader ι (Take α)) γ) :
    Action ε (TokioReader ι α) γ :=
  borrowing (fun r => ⟨r.state, ⟨r.reader, bound⟩⟩) (fun r _ => ⟨r.state, r.reader.inner⟩) m

def asyncRemaining (r : TokioReader ι (Take α)) : Nat := r.reader.limit

def withDecompression [Inflate ι] {ε γ : Type} (m : Action ε (AsyncDecompressionReader ι α) γ) :
    Action ε (TokioReader ι α) γ :=
  borrowing (fun r => ⟨Inflate.resetAs r.state, r.reader⟩) (fun d _ => ⟨d.state, d.reader⟩) m

/-- The same inflate state on both. -/
def SameState (A : α → ρ → Prop) (a : TokioReader ι α) (r : DecompressionStateWrappedReader ι ρ) :
    Prop :=
  A a.reader r.reader ∧ a.state = r.decompressionState

theorem follows [AsyncRead α] [Read ρ] {early : IoError} {A : α → ρ → Prop} (h : Follows early A) :
    Follows early (SameState A : TokioReader ι α → DecompressionStateWrappedReader ι ρ → Prop) := by
  intro a r buf hr
  obtain ⟨state, a⟩ := a
  obtain ⟨hinner, hstate⟩ : A a r.reader ∧ state = r.decompressionState := hr
  have hsame : ∀ a r', A a r' → SameState A ⟨state, a⟩ ⟨r.decompressionState, r'⟩ :=
    fun _ _ hr' => ⟨hr', hstate⟩
  exact (h buf hinner).passes (TokioReader.mk state)
    (DecompressionStateWrappedReader.mk r.decompressionState) (fun _ _ => rfl) hsame

theorem followsUnblocked [AsyncRead α] [Read ρ] [SetBlocking ρ] {ended : IoError}
    {A : Bool → α → ρ → Prop} (h : FollowsUnblocked ended A) :
    FollowsUnblocked ended fun mode : Bool =>
      (SameState (A mode) : TokioReader ι α → DecompressionStateWrappedReader ι ρ → Prop) where
  switch := by
    intro mode a r blocking hr
    obtain ⟨r', hset, hr'⟩ := h.switch blocking hr.1
    refine ⟨⟨r.decompressionState, r'⟩, ?_, hr', hr.2⟩
    show ((SetBlocking.setBlocking blocking r.reader).1, _) = _
    rw [hset]
  read := by
    intro a r buf hr
    obtain ⟨hinner, hstate⟩ := hr
    have hsame : ∀ a' r', A false a' r' → SameState (A false) ⟨a.state, a'⟩ ⟨r.decompressionState, r'⟩ :=
      fun _ _ hr' => ⟨hr', hstate⟩
    exact (h.read buf hinner).passes (TokioReader.mk a.state)
      (DecompressionStateWrappedReader.mk r.decompressionState) hsame

variable {ε ε' γ : Type} {g : ε → ε'} {A : α → ρ → Prop}

theorem withBound_matches {m : Nat → Action (Stop ε') (TokioReader ι (Take α)) γ}
    {m' : Action ε (DecompressionStateWrappedReader ι (Take ρ)) γ}
    (h : Matches g (SameState (Limited A)) m m') (bound : Nat) :
    Matches g (SameState A) (fun turns => withBound bound (m turns))
      (DecompressionStateWrappedReader.withBound bound m') := by
  apply h.borrowing
  · intro a r hr
    exact ⟨⟨hr.1, rfl⟩, hr.2⟩
  · intro a r b s _ hb
    exact ⟨hb.1.1, hb.2⟩

theorem withDecompression_matches [Inflate ι]
    {m : Nat → Action (Stop ε') (AsyncDecompressionReader ι α) γ}
    {m' : Action ε (DecompressionReader ι ρ) γ}
    (h : Matches g (AsyncDecompressionReader.SameState A) m m') :
    Matches g (SameState A) (fun turns => withDecompression (m turns))
      (DecompressionStateWrappedReader.withDecompression m') := by
  apply h.borrowing
  · intro a r hr
    exact ⟨hr.1, congrArg Inflate.resetAs hr.2⟩
  · intro a r b s _ hb
    exact hb

end TokioReader

end Protocraft
