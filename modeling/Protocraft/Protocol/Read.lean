import Protocraft.Defaults.Decompression
import Protocraft.Primatives.VarInt

/-! Reading a packet.

Behind the length, which takes three bytes at most, everything is read within a bound;
in a compressed frame there are two, one around the compressed bytes and one around
what they decompress to. Only the inner one is drained behind the handler. -/
namespace Protocraft
open Protocraft.Stream

/-- The packets a state knows, by their ids. -/
structure ProtocolState (δ : Type) where
  stateName : String
  designatorFromId : I32 → Option δ

/-- What became of a packet that could be read: the handler's result, or none known to
handle it. -/
inductive Invocation (α : Type) where
  | handled (result : Except ReadError α)
  | unknown (state : String) (id : I32)
  deriving DecidableEq

def Invocation.result {α : Type} : Invocation α → Except ReadError α
  | handled result => result
  | unknown state id => .error (.unknownPacket state id)

section Program
variable {δ α : Type}

/-- `discard_remaining!`. -/
def discardRemaining : Program ReadError Nat Unit :=
  .remaining fun remaining => .discard remaining fun reply => .done (reply.mapError .streamError)

/-- `handle_helper!`; the handler's own failure is a result. -/
def handleHelper (S : ProtocolState δ) (handlePacket : δ → Program ReadError Nat α) :
    Program ReadError Nat (Invocation α) := do
  let id ← VarInt.fromReader
  match S.designatorFromId id.value with
  | some designator => do
    let result ← (handlePacket designator).attempt
    discardRemaining
    return .handled result
  | none => return .unknown S.stateName id.value

end Program

section Read
variable {δ α ι ρ : Type} [Inflate ι] [BufRead ρ]
open DecompressionStateWrappedReader (withBound withDecompression remaining)

/-- What is read within the bound that the length sets. -/
def readBody (S : ProtocolState δ) (handlePacket : δ → Program ReadError Nat α)
    (compressionThreshold : Option Nat) :
    Action ReadError (DecompressionStateWrappedReader ι (Take ρ)) (Invocation α) :=
  match compressionThreshold with
  | some _ => do
    let dataLength ← VarInt.fromReader.onReader
    if dataLength.value.toInt < 0 then throw (.negativeLength "uncompressed_size")
    else if dataLength.value = 0 then (handleHelper S handlePacket).run remaining
    else
      withDecompression (taking dataLength.value.toNat ((handleHelper S handlePacket).run Take.limit))
  | none => (handleHelper S handlePacket).run remaining

/-- `read_packet`, but for the handler's result, which is told from its own failures. -/
def readFrame (S : ProtocolState δ) (handlePacket : δ → Program ReadError Nat α)
    (compressionThreshold : Option Nat) :
    Action ReadError (DecompressionStateWrappedReader ι ρ) (Invocation α) := do
  let packetLength ← withBound 3 VarInt.fromReader.onReader
  if packetLength.value.toInt < 0 then throw (.negativeLength "packet_length")
  else withBound packetLength.value.toNat (readBody S handlePacket compressionThreshold)

def readPacket (S : ProtocolState δ) (handlePacket : δ → Program ReadError Nat α)
    (compressionThreshold : Option Nat) :
    Action ReadError (DecompressionStateWrappedReader ι ρ) α := fun r =>
  let (reply, r) := readFrame S handlePacket compressionThreshold r
  (reply.bind Invocation.result, r)

/-- What every call of the reader keeps, reading a packet keeps. -/
theorem readFrame_keeps {I : ρ → Prop} (h : Kept I) (S : ProtocolState δ)
    (handlePacket : δ → Program ReadError Nat α) (threshold : Option Nat) :
    Keeps (fun r : DecompressionStateWrappedReader ι ρ => I r.reader)
      (readFrame S handlePacket threshold) := by
  have hread := DecompressionStateWrappedReader.read_keeps (ι := ι) h.take.read
  refine (DecompressionStateWrappedReader.withBound_keeps (Program.run_keeps hread _ _)).bind
    fun packetLength => ?_
  split
  · exact keeps_throw _
  · refine DecompressionStateWrappedReader.withBound_keeps ?_
    cases threshold with
    | none => exact Program.run_keeps hread _ _
    | some threshold =>
      refine (Program.run_keeps hread _ _).bind fun dataLength => ?_
      split
      · exact keeps_throw _
      · split
        · exact Program.run_keeps hread _ _
        · have hinner := Take.read_keeps (DecompressionReader.read_keeps (ι := ι) h.take)
          have htaking : Keeps (fun d : DecompressionReader ι (Take ρ) => I d.reader.inner)
              (taking dataLength.value.toNat ((handleHelper S handlePacket).run Take.limit)) :=
            (Program.run_keeps hinner _ _).borrowing (fun _ => id) fun _ _ => id
          exact htaking.borrowing (fun _ => id) fun _ _ => id

theorem readPacket_apply (S : ProtocolState δ) (handlePacket : δ → Program ReadError Nat α)
    (threshold : Option Nat) (r : DecompressionStateWrappedReader ι ρ) :
    readPacket S handlePacket threshold r =
      ((readFrame S handlePacket threshold r).1.bind Invocation.result,
      (readFrame S handlePacket threshold r).2) := rfl

/-- One packet after the other, each under its threshold, whatever comes of them. -/
def readPackets (S : ProtocolState δ) (handlePacket : δ → Program ReadError Nat α) :
    List (Option Nat) → DecompressionStateWrappedReader ι ρ →
      List (Except ReadError α) × DecompressionStateWrappedReader ι ρ
  | [], r => ([], r)
  | threshold :: thresholds, r =>
    let (reply, r) := readPacket S handlePacket threshold r
    let (replies, r) := readPackets S handlePacket thresholds r
    (reply :: replies, r)

end Read

/-! ### What the helper does on bytes -/

section Eval
variable {δ α : Type} {S : ProtocolState δ} {handlePacket : δ → Program ReadError Nat α}

theorem discardRemaining_eval (c : Bytes) : discardRemaining.eval List.length c = (.ok (), []) := by
  simp [discardRemaining, Program.eval, skipped, Except.mapError]

/-- A known packet is handled, on the bytes behind its id, and all of it is gone then. -/
theorem handleHelper_known {c payload : Bytes} {n : Nat} {designator : δ}
    (hid : Leb128.decode 5 c = some (n, payload))
    (hknown : S.designatorFromId (BitVec.ofNat 32 n) = some designator) :
    (handleHelper S handlePacket).eval List.length c =
      (.ok (.handled ((handlePacket designator).eval List.length payload).1), []) := by
  rw [handleHelper, Program.eval_bind_ok (VarInt.fromReader_eval _ hid)]
  simp only [hknown]
  rw [Program.eval_bind_ok (Program.eval_attempt _ _ _), Program.eval_bind_ok (discardRemaining_eval _)]
  rfl

theorem handleHelper_unknown {c payload : Bytes} {n : Nat}
    (hid : Leb128.decode 5 c = some (n, payload))
    (hunknown : S.designatorFromId (BitVec.ofNat 32 n) = none) :
    (handleHelper S handlePacket).eval List.length c =
      (.ok (.unknown S.stateName (BitVec.ofNat 32 n)), payload) := by
  rw [handleHelper, Program.eval_bind_ok (VarInt.fromReader_eval _ hid)]
  simp only [hunknown]
  rfl

end Eval

/-! ### Frames on a reader that does not stall -/

section Frames
variable {δ α ι ρ : Type} [Inflate ι] [BufRead ρ] {R : ρ → Bytes → Prop}
  {S : ProtocolState δ} {handlePacket : δ → Program ReadError Nat α}
open DecompressionStateWrappedReader (withBound withDecompression remaining)

omit [Inflate ι] [BufRead ρ] in
theorem readVarInt [Read ρ] (h : Delivers R Never) {r : ρ} {c c' : Bytes} {n : Nat} (hr : R r c)
    (hn : Leb128.decode 5 c = some (n, c')) : ∃ r', R r' c' ∧ ∀ {ι : Type} (s : ι),
      VarInt.fromReader.onReader (DecompressionStateWrappedReader.mk s r) =
        ((.ok ⟨BitVec.ofNat 32 n⟩ : Except ReadError VarInt), ⟨s, r'⟩) := by
  obtain ⟨r', hrun, hr'⟩ := Program.onReader_eq h hr (VarInt.fromReader_eval (fun _ => ()) hn)
  refine ⟨r', hr', fun {ι} s => ?_⟩
  rw [Program.onReader_passes (DecompressionStateWrappedReader.passes s), hrun]

theorem readLength (h : Delivers R Never) {r : ρ} {c c' : Bytes} {n : Nat} (hr : R r c)
    (hlength : Leb128.decode 3 c = some (n, c')) : ∃ r', R r' c' ∧ ∀ {ι : Type} (s : ι),
      withBound 3 VarInt.fromReader.onReader (DecompressionStateWrappedReader.mk s r) =
        ((.ok ⟨BitVec.ofNat 32 n⟩ : Except ReadError VarInt), ⟨s, r'⟩) := by
  obtain ⟨used, rfl, hused, hdecode⟩ := Leb128.decode_split hlength
  have hcapped : Capped R (c'.drop (3 - used.length)) (⟨r, 3⟩ : Take ρ)
      (used ++ c'.take (3 - used.length)) := by
    refine ⟨?_, ?_, fun hlt => ?_⟩
    · rwa [List.append_assoc, List.take_append_drop]
    · rw [List.length_append, List.length_take]
      dsimp only
      omega
    · rw [List.length_append, List.length_take] at hlt
      dsimp only at hlt
      exact List.drop_eq_nil_of_le (by omega)
  obtain ⟨t, ht, hread⟩ := readVarInt (h.take _) hcapped (hdecode 5 _ (by omega))
  refine ⟨t.inner, ?_, fun {ι} s => by rw [withBound, borrowing_apply, hread]⟩
  have hinner := ht.1
  rwa [List.take_append_drop] at hinner

/-- The length cuts a frame out of the stream. -/
theorem readFrame_bounded (h : Delivers R Never) {r : ρ} {c body rest : Bytes} (hr : R r c)
    (hlength : Leb128.decode 3 c = some (body.length, body ++ rest)) (threshold : Option Nat) :
    ∃ r', Taken R rest ⟨r', body.length⟩ body ∧ ∀ {ι : Type} [Inflate ι] (s : ι),
      readFrame S handlePacket threshold (DecompressionStateWrappedReader.mk s r) =
        withBound body.length (readBody S handlePacket threshold) ⟨s, r'⟩ := by
  obtain ⟨r', hr', hread⟩ := readLength h hr hlength
  have hlt := Leb128.decode_lt hlength
  have hsmall : (BitVec.ofNat 32 body.length).toNat = body.length := by
    rw [BitVec.toNat_ofNat]
    omega
  refine ⟨r', ⟨hr', rfl⟩, fun {ι} _ s => ?_⟩
  rw [readFrame, bind_ok (hread s)]
  simp only [hsmall]
  rw [if_neg]
  rw [BitVec.toInt_eq_toNat_of_lt (by rw [hsmall]; omega)]
  omega

/-- Without compression the helper reads the body. -/
theorem readBody_none (s : ι) (t : Take ρ) :
    readBody S handlePacket none (DecompressionStateWrappedReader.mk s t) =
      (((handleHelper S handlePacket).run Take.limit t).1,
        ⟨s, ((handleHelper S handlePacket).run Take.limit t).2⟩) :=
  Program.run_passes (DecompressionStateWrappedReader.passes s) (fun _ => rfl) _ t

/-- And what is behind a zero. -/
theorem readBody_zero (h : Delivers R Never) {rest body c : Bytes} {t : Take ρ} {n : Nat}
    (ht : Taken R rest t body) (hzero : Leb128.decode 5 body = some (n, c))
    (hn : BitVec.ofNat 32 n = 0) (threshold : Nat) : ∃ t', Taken R rest t' c ∧
      ∀ {ι : Type} [Inflate ι] (s : ι),
      readBody S handlePacket (some threshold) (DecompressionStateWrappedReader.mk s t) =
        (((handleHelper S handlePacket).run Take.limit t').1,
          ⟨s, ((handleHelper S handlePacket).run Take.limit t').2⟩) := by
  obtain ⟨t', ht', hread⟩ := readVarInt (h.toYields.take rest) ht hzero
  refine ⟨t', ht', fun {ι} _ s => ?_⟩
  rw [readBody, bind_ok (hread s)]
  simp only [hn]
  exact Program.run_passes (DecompressionStateWrappedReader.passes s) (fun _ => rfl) _ t'

/-- `c` starts with a frame in which `z` is to be decompressed to `size` bytes, and goes on
with `rest`. -/
structure CompressedFrame (c z : Bytes) (size : Nat) (rest : Bytes) : Prop where
  framed : ∃ body n, Leb128.decode 3 c = some (body.length, body ++ rest) ∧
    Leb128.decode 5 body = some (n, z) ∧ n % 2 ^ 32 = size
  nonzero : size ≠ 0
  positive : size < 2 ^ 31

variable (S handlePacket) in
/-- The compressed bytes are read within the first bound, and what they decompress to within
the second. -/
theorem readFrame_compressed (h : Delivers R Never) {r : ρ} {c z rest : Bytes} {size : Nat}
    (hr : R r c) (hframe : CompressedFrame c z size rest) (threshold : Nat) :
    ∃ t, Taken R rest t z ∧ ∀ {ι : Type} [Inflate ι] (s : ι),
      let d := (handleHelper S handlePacket).run Take.limit
        (⟨⟨Inflate.resetAs s, t⟩, size⟩ : Take (DecompressionReader ι (Take ρ)))
      readFrame S handlePacket (some threshold) (DecompressionStateWrappedReader.mk s r) =
        (d.1, ⟨d.2.inner.state, d.2.inner.reader.inner⟩) := by
  obtain ⟨⟨body, n, hlength, hsize, hn⟩, hnonzero, hpositive⟩ := hframe
  obtain ⟨r₁, ht₁, hbounded⟩ := readFrame_bounded h hr hlength (some threshold)
  obtain ⟨t, ht, hread⟩ := readVarInt (h.toYields.take rest) ht₁ hsize
  have hvalue : (BitVec.ofNat 32 n).toNat = size := by rw [BitVec.toNat_ofNat, hn]
  have hsigned : ¬ (BitVec.ofNat 32 n).toInt < 0 := by
    rw [BitVec.toInt_eq_toNat_of_lt (by omega)]
    omega
  have hunequal : ¬ BitVec.ofNat 32 n = 0 := by
    intro he
    rw [he] at hvalue
    exact hnonzero hvalue.symm
  refine ⟨t, ht, fun {ι} _ s => ?_⟩
  dsimp only
  rw [hbounded, withBound, borrowing_apply, readBody, bind_ok (hread s)]
  simp only [hsigned, hunequal, if_false, hvalue]
  rfl

end Frames

end Protocraft
