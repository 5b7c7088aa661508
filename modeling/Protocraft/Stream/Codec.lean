import Protocraft.Stream.Io

/-! Streaming compression, with the interface of a zlib library.

A call is given some input and room for some output, and says how much of each it
used. What it does not write it keeps for later calls, and it may use input without
writing anything. `Decoding` is what a reader may rely on in a decompressor,
`Deflating` and `SyncFlushing` what a writer may in a compressor: each is a contract
on single calls, over a relation that ties the state to the bytes still to come. -/
namespace Protocraft.Stream

inductive MZError where
  | errNo
  | stream
  | data
  | mem
  | buf
  | version
  | param
  deriving DecidableEq, Repr

inductive MZStatus where
  | ok
  | streamEnd
  | needDict
  deriving DecidableEq, Repr

inductive MZFlush where
  | none
  | sync
  | finish
  deriving DecidableEq, Repr

/-- The `{:?}` of an error. -/
def MZError.debug : MZError → String
  | errNo => "ErrNo"
  | stream => "Stream"
  | data => "Data"
  | mem => "Mem"
  | buf => "Buf"
  | version => "Version"
  | param => "Param"

structure StreamResult where
  bytesConsumed : Nat
  written : Bytes
  status : Except MZError MZStatus
  deriving DecidableEq

/-- A decompressor, called without asking it to flush. -/
class Inflate (ι : Type) where
  resetAs : ι → ι
  inflate : ι → Bytes → Nat → StreamResult × ι

class Deflate (κ : Type) where
  reset : κ → κ
  deflate : κ → Bytes → Nat → MZFlush → StreamResult × κ

/-! ### Decompressors -/

section Inflate
variable {ι : Type} [Inflate ι]

/-- `D s z d`: from state `s` the compressed bytes `z`, all of them, yield `d`. A call that
gets some of `z`, while output is wanted and left, succeeds and writes the next of it,
if any; given all of `z` it does write some. -/
structure Decoding (D : ι → Bytes → Bytes → Prop) : Prop where
  step : ∀ {s z d input n}, D s z d → d ≠ [] → 0 < n → input <+: z → (z ≠ [] → input ≠ []) →
    ∃ status consumed written s' d', Inflate.inflate s input n = (⟨consumed, written, .ok status⟩, s') ∧
      consumed ≤ input.length ∧ written.length ≤ n ∧ d = written ++ d' ∧ D s' (z.drop consumed) d'
  whole : ∀ {s z d n}, D s z d → d ≠ [] → 0 < n → (Inflate.inflate s z n).1.written ≠ []

/-- One that, given all of `z`, has used it up by the time the output is out. -/
structure Ideal (D : ι → Bytes → Bytes → Prop) : Prop extends Decoding D where
  consumes : ∀ {s z d n}, D s z d → d ≠ [] → 0 < n → (Inflate.inflate s z n).1.written = d →
    (Inflate.inflate s z n).1.bytesConsumed = z.length

/-- A call uses no more than it is given, and writes no more than there is room for. -/
def Inflate.Bounded (ι : Type) [Inflate ι] : Prop :=
  ∀ {s s' : ι} {input : Bytes} {n : Nat} {result : StreamResult},
    Inflate.inflate s input n = (result, s') →
      result.bytesConsumed ≤ input.length ∧ result.written.length ≤ n

/-- A call on record: the input and the room it was given, and what came of it. -/
structure Call where
  input : Bytes
  room : Nat
  result : StreamResult
  deriving DecidableEq

/-- The input that the reader has to move past: none when the call failed. -/
def Call.consumed (call : Call) : Nat :=
  match call.result.status with
  | .ok _ => call.result.bytesConsumed
  | .error _ => 0

/-- A decompressor that keeps a record of its calls since it was reset. -/
structure Logged (ι : Type) where
  state : ι
  calls : List Call

instance : Inflate (Logged ι) where
  resetAs l := ⟨Inflate.resetAs l.state, []⟩
  inflate l input n :=
    ((Inflate.inflate l.state input n).1,
      ⟨(Inflate.inflate l.state input n).2,
        l.calls ++ [⟨input, n, (Inflate.inflate l.state input n).1⟩]⟩)

theorem Logged.inflate {l : Logged ι} {input : Bytes} {n : Nat} {result : StreamResult} {s : ι}
    (h : Inflate.inflate l.state input n = (result, s)) :
    Inflate.inflate l input n = (result, ⟨s, l.calls ++ [⟨input, n, result⟩]⟩) := by
  simp only [Inflate.inflate, h]

theorem Logged.bounded (h : Inflate.Bounded ι) : Inflate.Bounded (Logged ι) := by
  intro l l' input n result hcall
  rcases hinner : Inflate.inflate l.state input n with ⟨result', s'⟩
  rw [Logged.inflate hinner] at hcall
  cases hcall
  exact h hinner

/-- All the input that the calls used. -/
def consumed (calls : List Call) : Nat := (calls.map Call.consumed).sum

theorem consumed_append (calls : List Call) (call : Call) :
    consumed (calls ++ [call]) = consumed calls + call.consumed := by
  simp [consumed]

/-- The last call was given all that was left of `z`, and used all it was given. -/
def Exhausting (z : Bytes) (calls : List Call) : Prop :=
  ∃ before call, calls = before ++ [call] ∧ call.input = z.drop (consumed before) ∧
    call.result.bytesConsumed = call.input.length

/-- One of them wrote nothing. -/
def Logged.Silent (l : Logged ι) : Prop := ∃ call ∈ l.calls, call.result.written = []

end Inflate

/-! ### Compressors -/

section Deflate
variable {κ : Type} [Deflate κ]

/-- `Sent k output input`: since it was reset, compressor `k` has used `input` and
written `output`. `Complete output input`: that is a whole compressed stream. -/
structure Deflating (Sent : κ → Bytes → Bytes → Prop) (Complete : Bytes → Bytes → Prop) : Prop where
  reset : ∀ k, Sent (Deflate.reset k) [] []
  call : ∀ {k k' output input data n flush result}, Sent k output input →
    Deflate.deflate k data n flush = (result, k') → ∀ {status}, result.status = .ok status →
    result.bytesConsumed ≤ data.length ∧ result.written.length ≤ n ∧
      Sent k' (output ++ result.written) (input ++ data.take result.bytesConsumed) ∧
      (status = .streamEnd →
        Complete (output ++ result.written) (input ++ data.take result.bytesConsumed))

/-- A compressor flushed at each call. It does not fail, what it has written and what it
still has `pending` inflate to all it has used, and a call that uses nothing of what it
is given has made the pending output less. One that leaves room has used all it is given
and has nothing pending, and with room enough a call does leave some. -/
structure SyncFlushing (Sent : κ → Bytes → Bytes → Prop) (pending : κ → Bytes)
    (inflated : Bytes → Bytes) : Prop where
  reset : ∀ k, Sent (Deflate.reset k) [] []
  call : ∀ {k output input n} data, 0 < n → Sent k output input →
    ∃ status consumed written k',
      Deflate.deflate k data n .sync = (⟨consumed, written, .ok status⟩, k') ∧
      consumed ≤ data.length ∧ Sent k' (output ++ written) (input ++ data.take consumed) ∧
      (data ≠ [] → consumed = 0 → (pending k').length < (pending k).length) ∧
      (written.length < n → consumed = data.length ∧ pending k' = [])
  enough : ∀ {k output input} data, Sent k output input →
    ∃ least, ∀ n, least ≤ n → (Deflate.deflate k data n .sync).1.written.length < n
  synced : ∀ {k output input}, Sent k output input → inflated (output ++ pending k) = input
  grows : ∀ z z', inflated z <+: inflated (z ++ z')

/-- A compressor that is not flushed until it is to finish. While it is `going` a call fails
only if there is nothing to take in and nothing `pending`, and one that uses nothing of what
it is given has made the pending output less; a call that does not finish it leaves less
`remaining`. -/
structure Streaming (Sent : κ → Bytes → Bytes → Prop) (Complete : Bytes → Bytes → Prop)
    (pending : κ → Bytes) (going : κ → Prop) (remaining : κ → Nat) :
    Prop extends Deflating Sent Complete where
  fresh : ∀ k, going (Deflate.reset k)
  starves : ∀ {k n}, going k → 0 < n → pending k = [] →
    (Deflate.deflate k [] n .none).1.status = .error .buf
  goes : ∀ {k k' data n result}, going k → 0 < n → ¬(data = [] ∧ pending k = []) →
    Deflate.deflate k data n .none = (result, k') → (∃ status, result.status = .ok status) ∧ going k' ∧
      (data ≠ [] → result.bytesConsumed = 0 → (pending k').length < (pending k).length)
  finishes : ∀ {k k' output input n result}, Sent k output input → 0 < n →
    Deflate.deflate k [] n .finish = (result, k') →
      ∃ status, result.status = .ok status ∧ (status ≠ .streamEnd → remaining k' < remaining k)

/-- A call uses no more than it is given, and writes no more than there is room for. -/
def Deflate.Bounded (κ : Type) [Deflate κ] : Prop :=
  ∀ {k k' : κ} {data : Bytes} {n : Nat} {flush : MZFlush} {result : StreamResult},
    Deflate.deflate k data n flush = (result, k') →
      result.bytesConsumed ≤ data.length ∧ result.written.length ≤ n

/-- And one that is not to flush and leaves input has filled the room. -/
def Deflate.Fills (κ : Type) [Deflate κ] : Prop :=
  ∀ {k k' : κ} {data : Bytes} {n : Nat} {result : StreamResult},
    Deflate.deflate k data n .none = (result, k') → result.bytesConsumed < data.length →
      result.written.length = n

/-- Told to finish it says that it has only when there is nothing left to put out. -/
def Deflate.Drains (pending : κ → Bytes) : Prop :=
  ∀ {k k' : κ} {data : Bytes} {n : Nat} {result : StreamResult},
    Deflate.deflate k data n .finish = (result, k') → result.status = .ok .streamEnd → pending k' = []

/-- The call was successful, and one byte of its `data` is left. -/
def StreamResult.LeavesOne (result : StreamResult) (data : Bytes) : Prop :=
  (∃ status, result.status = .ok status) ∧ result.bytesConsumed + 1 = data.length

/-- A call of a compressor on record, with the state it was made in. -/
structure DeflateCall (κ : Type) where
  before : κ
  input : Bytes
  room : Nat
  flush : MZFlush
  result : StreamResult

/-- Not to flush, with nothing to take in and nothing to put out. -/
def DeflateCall.Starved (pending : κ → Bytes) (call : DeflateCall κ) : Prop :=
  call.flush = .none ∧ call.input = [] ∧ pending call.before = []

/-- All that the calls wrote. -/
def outputs (calls : List (DeflateCall κ)) : Bytes := (calls.map fun call => call.result.written).flatten

omit [Deflate κ] in
theorem outputs_append (calls : List (DeflateCall κ)) (call : DeflateCall κ) :
    outputs (calls ++ [call]) = outputs calls ++ call.result.written := by
  simp [outputs]

/-- A call to flush that was given the last of `input` and used it up, when the calls before it
had used the rest and written `output`. -/
structure DeflateCall.Closes (Sent : κ → Bytes → Bytes → Prop) (output input : Bytes)
    (call : DeflateCall κ) : Prop where
  result : (Deflate.deflate call.before call.input call.room .sync).1 = call.result
  flush : call.flush = .sync
  room : 0 < call.room
  sent : ∃ before, Sent call.before output before ∧ before ++ call.input = input
  used : call.result.bytesConsumed = call.input.length

/-- What `output` and the call inflate to, had it been given that room. -/
def DeflateCall.given (inflated : Bytes → Bytes) (output : Bytes) (call : DeflateCall κ)
    (room : Nat) : Bytes :=
  inflated (output ++ (Deflate.deflate call.before call.input room call.flush).1.written)

/-- With more room the call would have put out no more data. -/
def DeflateCall.Unhindered (inflated : Bytes → Bytes) (output : Bytes) (call : DeflateCall κ) : Prop :=
  ∀ room, call.room ≤ room → call.given inflated output room <+: call.given inflated output call.room

namespace DeflateCall.Closes
variable {Sent : κ → Bytes → Bytes → Prop} {pending : κ → Bytes} {inflated : Bytes → Bytes}
  {output input : Bytes} {call : DeflateCall κ}

theorem given_room (inflated : Bytes → Bytes) (hcall : call.Closes Sent output input) :
    call.given inflated output call.room = inflated (output ++ call.result.written) := by
  rw [given, hcall.flush, hcall.result]

/-- In any room the call puts out no more than all there is, and if it left some, no less. -/
theorem given_prefix (h : SyncFlushing Sent pending inflated) (hcall : call.Closes Sent output input)
    {room : Nat} (hroom : 0 < room) : call.given inflated output room <+: input ∧
      ((Deflate.deflate call.before call.input room .sync).1.written.length < room →
        call.given inflated output room = input) := by
  obtain ⟨before, hsent, rfl⟩ := hcall.sent
  obtain ⟨status, consumed, written, k', hdeflate, -, hsent', -, hleft⟩ := h.call call.input hroom hsent
  have hgiven : call.given inflated output room = inflated (output ++ written) := by
    rw [given, hcall.flush, hdeflate]
  have hsynced := h.synced hsent'
  rw [hgiven, hdeflate]
  constructor
  · have hout := h.grows (output ++ written) (pending k')
    rw [hsynced] at hout
    exact hout.trans ((List.prefix_append_right_inj _).mpr (List.take_prefix _ _))
  · intro hsome
    obtain ⟨hall, hnone⟩ := hleft hsome
    rwa [hnone, List.append_nil, hall, List.take_length] at hsynced

/-- All of the input is out, if the call left room. -/
theorem whole_of_room (h : SyncFlushing Sent pending inflated) (hcall : call.Closes Sent output input)
    (hleft : call.result.written.length < call.room) :
    inflated (output ++ call.result.written) = input := by
  rw [← hcall.given_room inflated]
  refine (hcall.given_prefix h hcall.room).2 ?_
  rwa [hcall.result]

/-- It is just when more room would have made no difference. -/
theorem whole_iff (h : SyncFlushing Sent pending inflated) (hcall : call.Closes Sent output input) :
    inflated (output ++ call.result.written) = input ↔ call.Unhindered inflated output := by
  rw [← hcall.given_room inflated]
  constructor
  · intro hwhole room hroom
    rw [hwhole]
    exact (hcall.given_prefix h (Nat.lt_of_lt_of_le hcall.room hroom)).1
  · intro hunhindered
    obtain ⟨before, hsent, -⟩ := hcall.sent
    obtain ⟨least, henough⟩ := h.enough call.input hsent
    have hlarge : 0 < max call.room least := Nat.lt_of_lt_of_le hcall.room (Nat.le_max_left _ _)
    have hall := (hcall.given_prefix h hlarge).2 (henough _ (Nat.le_max_right _ _))
    have hless := hunhindered _ (Nat.le_max_left call.room least)
    rw [hall] at hless
    exact (hcall.given_prefix h hcall.room).1.eq_of_length_le hless.length_le

end DeflateCall.Closes

/-- A compressor that keeps a record of its calls since it was reset. -/
structure Recorded (κ : Type) where
  state : κ
  calls : List (DeflateCall κ)

instance : Deflate (Recorded κ) where
  reset r := ⟨Deflate.reset r.state, []⟩
  deflate r data n flush :=
    ((Deflate.deflate r.state data n flush).1, ⟨(Deflate.deflate r.state data n flush).2,
      r.calls ++ [⟨r.state, data, n, flush, (Deflate.deflate r.state data n flush).1⟩]⟩)

theorem Recorded.deflate {r : Recorded κ} {data : Bytes} {n : Nat} {flush : MZFlush}
    {result : StreamResult} {k : κ} (h : Deflate.deflate r.state data n flush = (result, k)) :
    Deflate.deflate r data n flush = (result, ⟨k, r.calls ++ [⟨r.state, data, n, flush, result⟩]⟩) := by
  simp only [Deflate.deflate, h]

theorem Recorded.deflating {Sent : κ → Bytes → Bytes → Prop} {Complete : Bytes → Bytes → Prop}
    (h : Deflating Sent Complete) : Deflating (fun r : Recorded κ => Sent r.state) Complete where
  reset r := h.reset r.state
  call := by
    intro r r' output input data n flush result hsent hcall
    rcases hinner : Deflate.deflate r.state data n flush with ⟨result', k⟩
    rw [Recorded.deflate hinner] at hcall
    cases hcall
    exact h.call hsent hinner

/-- What is on record is what was written. -/
theorem Recorded.tracing (h : Deflate.Bounded κ) :
    Deflating (fun (r : Recorded κ) output _ => outputs r.calls = output) (fun _ _ => True) where
  reset _ := rfl
  call := by
    intro r r' output input data n flush result hout hcall status _
    rcases hinner : Deflate.deflate r.state data n flush with ⟨result', k⟩
    rw [Recorded.deflate hinner] at hcall
    cases hcall
    obtain ⟨hconsumed, hwritten⟩ := h hinner
    exact ⟨hconsumed, hwritten, by rw [outputs_append, hout], fun _ => trivial⟩

end Deflate

/-- Passes its input through as it comes. -/
structure Relay where
  deriving DecidableEq

instance : Deflate Relay where
  reset _ := ⟨⟩
  deflate _ data n flush :=
    (⟨min n data.length, data.take n,
      .ok (if flush = .finish ∧ data.length ≤ n then .streamEnd else .ok)⟩, ⟨⟩)

theorem Relay.bounded : Deflate.Bounded Relay := by
  intro k k' data n flush result hcall
  cases hcall
  exact ⟨Nat.min_le_right _ _, List.length_take_le _ _⟩

theorem Relay.fills : Deflate.Fills Relay := by
  intro k k' data n result hcall hleft
  cases hcall
  dsimp only at hleft ⊢
  rw [List.length_take]
  omega

end Protocraft.Stream
