import Protocraft.Protocol.Confined
import Protocraft.Protocol.Opening

/-! The first packet stays in its bound.

Whoever connects may send anything. Reading the first packet takes no more than 29 bytes before
it knows how far that one goes, and nothing behind it then; and blocking, which is switched off to
see whether a byte has come, is on again whatever came of that (`readHandshake_confined`). -/
namespace Protocraft
open Protocraft.Stream

/-- To switch blocking off may fail, and leaves it on then. -/
def stillBlocks : Except IoError Unit → Bool
  | .ok _ => false
  | .error _ => true

/-- Streams that can do without blocking: `M true` is said of those that block. -/
structure Unblocks {ρ : Type} [Read ρ] [SetBlocking ρ] (M : Bool → ρ → Bytes → Prop) : Prop where
  tracks : ∀ blocking, Tracks (M blocking)
  off : ∀ {r c}, M true r c →
    M (stillBlocks (SetBlocking.setBlocking false r).1) (SetBlocking.setBlocking false r).2 c
  on : ∀ {r c}, M false r c →
    (SetBlocking.setBlocking true r).1 = .ok () ∧ M true (SetBlocking.setBlocking true r).2 c

/-! ### Through the readers of a provider -/

section Readers
variable {ι ρ : Type} [Read ρ] [SetBlocking ρ] {M : Bool → ρ → Bytes → Prop}

theorem Unblocks.buffered (h : Unblocks M) : Unblocks fun blocking => Buffered (M blocking) where
  tracks blocking := (h.tracks blocking).buffered.toTracks
  off := by
    intro b c hb
    obtain ⟨hcap, behind, hr, rfl⟩ := hb
    exact ⟨hcap, behind, h.off hr, rfl⟩
  on := by
    intro b c hb
    obtain ⟨hcap, behind, hr, rfl⟩ := hb
    obtain ⟨hset, hr'⟩ := h.on hr
    exact ⟨hset, hcap, behind, hr', rfl⟩

theorem Unblocks.holding (h : Unblocks M) :
    Unblocks fun blocking => DefaultReader.Holding (M blocking) where
  tracks blocking := DefaultReader.tracks (h.tracks blocking)
  off := by
    intro d c hd
    cases d with
    | standard r => exact h.off hd
    | decrypt r =>
      obtain ⟨c', hr, rfl⟩ := hd
      exact ⟨c', h.off hr, rfl⟩
  on := by
    intro d c hd
    cases d with
    | standard r => exact h.on hd
    | decrypt r =>
      obtain ⟨c', hr, rfl⟩ := hd
      obtain ⟨hset, hr'⟩ := h.on hr
      exact ⟨hset, c', hr', rfl⟩

theorem Unblocks.wrapped (h : Unblocks M) :
    Unblocks fun blocking (r : DecompressionStateWrappedReader ι ρ) => M blocking r.reader where
  tracks blocking := {
    ok := by
      intro r c n bs r' hr hread
      obtain ⟨hreply, rfl⟩ := Prod.mk.inj hread
      exact (h.tracks blocking).ok hr (replied hreply)
    error := by
      intro r c n e r' hr hread
      obtain ⟨hreply, rfl⟩ := Prod.mk.inj hread
      exact (h.tracks blocking).error hr (replied hreply) }
  off := h.off
  on := h.on

end Readers

/-! ### The version of a handshake -/

namespace HandshakeVersion
variable {ρ : Type} [Read ρ] [SetBlocking ρ] {M : Bool → ρ → Bytes → Prop}

/-- Blocking is on again, and at most the byte is gone. -/
theorem tryReadByte_takes (h : Unblocks M) :
    Takes (M true) 1 (tryReadByte : Action IoError ρ (Option Byte)) := by
  intro r c hr
  have hoff := h.off hr
  rcases hset : SetBlocking.setBlocking false r with ⟨e | _, r₁⟩
  · rw [hset] at hoff
    refine ⟨c, List.suffix_refl c, by omega, ?_⟩
    rw [tryReadByte, bind_error hset]
    exact hoff
  · rw [hset] at hoff
    obtain ⟨left, hleft, hk, hr₂⟩ := (h.tracks false).readExact_takes 1 hoff
    rcases hread : Stream.readExact 1 r₁ with ⟨reply, r₂⟩
    rw [hread] at hr₂
    obtain ⟨hon, hr₃⟩ := h.on hr₂
    refine ⟨left, hleft, hk, ?_⟩
    rw [tryReadByte, bind_ok hset, bind_ok (attempt_apply _ _), hread, bind_ok (replied hon)]
    cases reply with
    | ok bytes => exact hr₃
    | error e =>
      dsimp only
      split <;> exact hr₃

omit [SetBlocking ρ] in
theorem readBytes_takes {R : ρ → Bytes → Prop} (h : Tracks R) (n : Nat) :
    Takes R n ((readBytes n : Program ReadError Unit Bytes).onReader) :=
  fun _ _ hr => h.readExact_takes n hr

omit [SetBlocking ρ] in
theorem readU8_takes {R : ρ → Bytes → Prop} (h : Tracks R) :
    Takes R 1 ((readU8 : Program ReadError Unit Byte).onReader) :=
  Program.takes_bind (j := 0) (readBytes_takes h 1) fun bytes => takes_pure (bytes.headD 0)

omit [SetBlocking ρ] in
theorem readSegments_takes {R : ρ → Bytes → Prop} (h : Tracks R) (tooLong : ReadError)
    (offsets : List Nat) (value : BitVec 32) :
    Takes R offsets.length ((VarInt.readSegments tooLong offsets value).onReader) := by
  induction offsets generalizing value with
  | nil => exact takes_throw tooLong
  | cons offset offsets ih =>
    have hbyte : Takes R 1 ((readU8 : Program ReadError Unit Byte).onReader) :=
      readU8_takes h
    rw [List.length_cons, Nat.add_comm]
    refine Program.takes_bind hbyte fun b => ?_
    dsimp only
    split
    · exact (takes_pure _).mono (Nat.zero_le _)
    · exact ih _

omit [SetBlocking ρ] in
theorem channelFromReader_takes {R : ρ → Bytes → Prop} (h : Tracks R) :
    Takes R 26 (channelFromReader : Action ReadError ρ HandshakeVersion) := by
  have hrefused : ∀ {k : Nat} (e : ReadError),
      Takes R k (throw e : Action ReadError ρ HandshakeVersion) :=
    fun e => (takes_throw e).mono (Nat.zero_le _)
  refine (readBytes_takes h 2).bind (j := 24) fun channelLength => ?_
  split
  next => exact hrefused _
  next =>
    refine (readBytes_takes h 22).bind (j := 2) fun channel => ?_
    split
    next => exact hrefused _
    next =>
      refine (readBytes_takes h 2).bind (j := 0) fun dataLength => ?_
      split
      next => exact hrefused _
      next => exact takes_pure _

theorem fromReader_takes (h : Unblocks M) :
    Takes (M true) 29 (fromReader : Action ReadError ρ HandshakeVersion) := by
  have htracks := h.tracks true
  have hrefused : ∀ {k : Nat} (e : ReadError),
      Takes (M true) k (throw e : Action ReadError ρ HandshakeVersion) :=
    fun e => (takes_throw e).mono (Nat.zero_le _)
  refine (readU8_takes htracks).bind (j := 28) fun firstByte => ?_
  split
  next =>
    rw [legacyFromReader_eq]
    have hnext := (tryReadByte_takes h).mapError ReadError.streamError
    refine hnext.bind (j := 27) fun nextByte => ?_
    cases nextByte with
    | none => exact (takes_pure _).mono (Nat.zero_le _)
    | some nextByte =>
      dsimp only
      split
      next => exact hrefused _
      next =>
        refine hnext.bind (j := 26) fun channelByte => ?_
        cases channelByte with
        | none => exact (takes_pure _).mono (Nat.zero_le _)
        | some channelByte =>
          dsimp only
          split
          next => exact hrefused _
          next => exact channelFromReader_takes htracks
  next =>
    refine (Program.takes_bind (k := 3) (j := 0) ?_ fun value => ?_).mono (by decide)
    · unfold standardLength
      dsimp only
      split
      next => exact (takes_pure _).mono (Nat.zero_le _)
      next => exact readSegments_takes htracks _ (List.range' 7 3 7) _
    · split
      next => exact takes_throw _
      next => exact takes_pure _

end HandshakeVersion

/-! ### `read_handshake` -/

section Confined
variable {α ι ρ : Type} [BufRead ρ] [SetBlocking ρ] {M : Bool → ρ → Bytes → Prop}
open DecompressionStateWrappedReader (withBound remaining)

/-- **Whatever is sent, the first packet takes no more than it says**: 29 bytes until it has said
it, and what lies behind its bound is still there. The stream blocks as before, also where reading
failed. -/
theorem readHandshake_confined (h : Unblocks M) (hblocking : Advances (M true))
    (S : ProtocolState Handshake) (handlePacket : Handshake → Program ReadError Nat α)
    {r : DecompressionStateWrappedReader ι ρ} {c : Bytes} (hr : M true r.reader c) :
    let opened : Except ReadError HandshakeVersion × _ := HandshakeVersion.fromReader r
    ∃ rest left, M true opened.2.reader rest ∧ M true (readHandshake S handlePacket r).2.reader left ∧
      rest <:+ c ∧ c.length ≤ rest.length + 29 ∧ left <:+ rest ∧
      (∀ e, opened.1 = .error e → left = rest) ∧
      ∀ version, opened.1 = .ok version → rest.drop version.bound <:+ left := by
  obtain ⟨rest, hrest, htaken, hr₁⟩ := HandshakeVersion.fromReader_takes h.wrapped hr
  rw [readHandshake_apply]
  rcases hopened : (HandshakeVersion.fromReader r : Except ReadError HandshakeVersion × _)
      with ⟨e | version, r₁⟩
  · rw [hopened] at hr₁
    have hfailed : readOpening S handlePacket r = (.error e, r₁) := bind_error hopened
    rw [hfailed]
    refine ⟨rest, rest, hr₁, hr₁, hrest, htaken, List.suffix_refl rest, fun _ _ => rfl, fun _ hok => ?_⟩
    cases hok
  · rw [hopened] at hr₁
    have hwithin : ∀ (n : Nat) (p : Program ReadError Nat (Invocation α)), ∃ left, left <:+ rest ∧
        rest.drop n <:+ left ∧ M true (withBound n (p.run remaining) r₁).2.reader left := by
      intro n p
      obtain ⟨left, ⟨before, hbefore⟩, hend⟩ := withBound_confined (ι := ι) hblocking (n := n)
        (fun hI => Program.run_keeps (DecompressionStateWrappedReader.read_keeps hI.read)
          remaining p) hr₁
      refine ⟨left ++ rest.drop n, ⟨before, ?_⟩, List.suffix_append left _, hend⟩
      rw [← List.append_assoc, hbefore, List.take_append_drop]
    have hhandled : ∃ left, left <:+ rest ∧ rest.drop version.bound <:+ left ∧
        M true (readOpening S handlePacket r).2.reader left := by
      rw [readOpening, bind_ok hopened]
      cases version with
      | standard bound => exact hwithin bound _
      | legacy1_6 bound => exact hwithin bound _
      | pre1_6 => exact hwithin 0 _
      | pre1_3 => exact hwithin 0 _
    obtain ⟨left, hleft, hbehind, hend⟩ := hhandled
    refine ⟨rest, left, hr₁, hend, hrest, htaken, hleft, fun _ herror => ?_, fun _ hok => ?_⟩
    · cases herror
    · cases hok
      exact hbehind

end Confined

namespace HandshakeVersion.Socket

/-- A socket in one of its modes. -/
def Stands (blocking : Bool) (s : Socket) (c : Bytes) : Prop := s.bytes = c ∧ s.blocking = blocking

theorem tracks (blocking : Bool) : Tracks (Stands blocking) where
  ok := by
    intro s c n bs s' hs hread
    obtain ⟨bytes, blocking', come⟩ := s
    obtain ⟨rfl, rfl⟩ := hs
    simp only [Read.read] at hread
    split at hread
    next =>
      cases hread
      exact ⟨bytes.drop n, (List.take_append_drop n bytes).symm, List.length_take_le n bytes, rfl, rfl⟩
    next =>
      split at hread
      · cases hread
        exact ⟨bytes.drop n, (List.take_append_drop n bytes).symm, List.length_take_le n bytes, rfl, rfl⟩
      · cases hread
  error := by
    intro s c n e s' hs hread
    obtain ⟨bytes, blocking', come⟩ := s
    obtain ⟨rfl, rfl⟩ := hs
    simp only [Read.read] at hread
    split at hread
    next => cases hread
    next =>
      split at hread
      · cases hread
      · cases hread
        exact ⟨rfl, rfl⟩

theorem unblocks : Unblocks Stands where
  tracks := tracks
  off := by
    intro s c hs
    exact ⟨hs.1, rfl⟩
  on := by
    intro s c hs
    exact ⟨rfl, hs.1, rfl⟩

end HandshakeVersion.Socket

/-- A ping that stops in the middle, of which the third byte is late. -/
theorem readHandshake_confined_late :
    let S : ProtocolState Handshake :=
      ⟨"serverbound_handshake", fun id => if id = 0 then some .standard else none⟩
    let stream : Bytes := [0xFE, 0x01, 0xFA, 0x00]
    let transport : HandshakeVersion.Socket := ⟨stream, true, [true, false]⟩
    let r := DecompressionStateWrappedReader.mk () (BufReader.mk (DefaultReader.standard transport) [] 1)
    ∃ left, left <:+ stream ∧
      Buffered (DefaultReader.Holding (HandshakeVersion.Socket.Stands true))
        (readHandshake S (fun handshake => pure handshake) r).2.reader left := by
  intro S stream transport r
  have hunblocks := HandshakeVersion.Socket.unblocks.holding
  have hheld : Buffered (DefaultReader.Holding (HandshakeVersion.Socket.Stands true)) r.reader stream :=
    ⟨by decide, stream, ⟨rfl, rfl⟩, rfl⟩
  obtain ⟨rest, left, -, hend, hrest, -, hleft, -⟩ := readHandshake_confined hunblocks.buffered
    (hunblocks.tracks true).buffered S (fun handshake => pure handshake) hheld
  exact ⟨left, hleft.trans hrest, hend⟩

end Protocraft
