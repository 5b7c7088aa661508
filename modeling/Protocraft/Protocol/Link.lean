import Protocraft.Protocol.Agreement
import Protocraft.Protocol.Sending
import Protocraft.Stream.Piece

/-! One direction of a connection.

On one end is a writer, on the other the buffered reader of a provider, and between them the bytes
that the writer's sink has and the segments that have arrived. `Link` says that all of it together
is the frames of the packets that were written and not read, whichever of the two ends has switched
encryption on; it says what writing, arriving, reading and switching do to that. -/
namespace Protocraft
open Protocraft.Stream

/-! ### What has arrived -/

namespace DefaultReader

/-- What the reader will hand over of what has arrived. -/
def held : DefaultReader Segments → Bytes
  | standard t => t.segments.flatten
  | decrypt d => Cfb8.decryptor.output d.decryptor d.reader.segments.flatten

def push (s : Bytes) (hs : s ≠ []) : DefaultReader Segments → DefaultReader Segments
  | standard t => standard (t.push s hs)
  | decrypt d => decrypt {d with reader := d.reader.push s hs}

/-- In which state the cipher will be behind all that has arrived, if there is one. -/
def last : DefaultReader Segments → Option Cfb8
  | standard _ => none
  | decrypt d => some (Cfb8.decryptor.after d.decryptor d.reader.segments.flatten)

/-- What comes behind it, read on from there. -/
def continued (last : Option Cfb8) (bytes : Bytes) : Bytes :=
  match last with
  | none => bytes
  | some cipher => Cfb8.decryptor.output cipher bytes

theorem held_push (s : Bytes) (hs : s ≠ []) (r : DefaultReader Segments) :
    (r.push s hs).held = r.held ++ continued r.last s := by
  cases r with
  | standard t => simp [push, held, continued, last]
  | decrypt d => simp [push, held, continued, last, Mealy.output_append]

theorem last_push (s : Bytes) (hs : s ≠ []) (r : DefaultReader Segments) :
    (r.push s hs).last = r.last.map fun cipher => Cfb8.decryptor.after cipher s := by
  cases r with
  | standard t => rfl
  | decrypt d => simp [push, last, Mealy.after_append]

theorem last_keeps (cipher : Option Cfb8) (n : Nat) :
    Keeps (fun r : DefaultReader Segments => r.last = cipher) (Read.read n) := by
  intro r hr
  cases r with
  | standard t => exact hr
  | decrypt d =>
    subst hr
    rcases hread : Read.read n d.reader with ⟨e | bytes, reader⟩
    · have hsame := Segments.tracks.error rfl hread
      show last (.decrypt (Read.read n d).2) = _
      rw [DecryptionReader.read_error hread]
      exact congrArg (fun c => some (Cfb8.decryptor.after d.decryptor c)) hsame
    · obtain ⟨c, hc, -, hreader⟩ := Segments.tracks.ok rfl hread
      show last (.decrypt (Read.read n d).2) = _
      rw [DecryptionReader.read_ok hread]
      simp only [last, hc, Mealy.after_append]
      rw [show reader.segments.flatten = c from hreader]

/-- Holds `c`, and the cipher behind it. -/
def Arrived (cipher : Option Cfb8) (r : DefaultReader Segments) (c : Bytes) : Prop :=
  Holding Segments.Holds r c ∧ r.last = cipher

theorem arrived (r : DefaultReader Segments) : Arrived r.last r r.held := by
  cases r with
  | standard t => exact ⟨rfl, rfl⟩
  | decrypt d => exact ⟨⟨_, rfl, rfl⟩, rfl⟩

theorem Arrived.held_eq {cipher : Option Cfb8} {r : DefaultReader Segments} {c : Bytes}
    (h : Arrived cipher r c) : r.held = c := by
  obtain ⟨h, -⟩ := h
  cases r with
  | standard t => exact h
  | decrypt d =>
    obtain ⟨_, rfl, rfl⟩ := h
    rfl

theorem arrived_delivers (cipher : Option Cfb8) : Delivers (Arrived cipher) Never :=
  (delivers Segments.delivers).kept (last_keeps cipher)

theorem prompt {capacity : Nat} {r : DefaultReader Segments} (h : r.source.Single capacity) :
    Prompt (Arrived r.last) capacity r r.held := by
  intro n hn
  cases r with
  | standard t =>
    obtain ⟨t', hread, ht'⟩ := h.prompt n hn
    refine ⟨.standard t', ?_, ht', rfl⟩
    show ((Read.read n t).1, standard (Read.read n t).2) = _
    rw [show Read.read n t = _ from hread]
    rfl
  | decrypt d =>
    obtain ⟨t', hread, ht'⟩ := h.prompt n hn
    have hdecrypted := DecryptionReader.read_ok hread
    refine ⟨.decrypt ⟨Cfb8.decryptor.after d.decryptor d.reader.segments.flatten, t'⟩, ?_,
      ⟨[], ht', rfl⟩, ?_⟩
    · show ((Read.read n d).1, decrypt (Read.read n d).2) = _
      rw [hdecrypted]
      rfl
    · show some _ = some _
      rw [show t'.segments.flatten = [] from ht']
      rfl

/-- What has arrived in one piece is read in one piece. -/
theorem onePiece {b : BufReader (DefaultReader Segments)} {c : Bytes}
    (h : Buffered (Arrived b.inner.last) b c)
    (hpiece : b.inner.source.segments = [] ∨ b.buffer = [] ∧ b.inner.source.Single b.capacity) :
    OnePiece (Arrived b.inner.last) b c := by
  obtain ⟨hcap, behind, harrived, rfl⟩ := h
  refine ⟨hcap, ?_⟩
  obtain hnone | ⟨hbuffer, hsingle⟩ := hpiece
  · have hheld : b.inner.held = [] := by
      rcases hinner : b.inner with t | d <;> rw [hinner] at hnone <;> simp only [source] at hnone <;>
        simp [held, hnone]
    rw [harrived.held_eq] at hheld
    subst hheld
    exact .inl ⟨(List.append_nil _).symm, harrived⟩
  · have hprompt := prompt hsingle
    rw [harrived.held_eq] at hprompt
    exact .inr ⟨hbuffer, by rwa [hbuffer], by rwa [hbuffer]⟩

end DefaultReader

/-! ### What has been written -/

namespace DefaultWriterState

/-- What the sink has. -/
def unsent : DefaultWriterState Collected → Bytes
  | standard b => b.writer.bytes
  | encrypt e => e.writer.bytes

def handOver (k : Nat) : DefaultWriterState Collected → DefaultWriterState Collected
  | standard b => standard {b with writer := ⟨b.writer.bytes.drop k⟩}
  | encrypt e => encrypt {e with writer := ⟨e.writer.bytes.drop k⟩}

end DefaultWriterState

/-- What a packet does to a writer that had nothing in its buffer. -/
inductive Wrote (frame : Bytes) : DefaultWriterState Collected → DefaultWriterState Collected → Prop
  | standard {b b' : BufferedWriter Collected} (hidle : b'.Idle)
      (hbytes : b'.writer.bytes = b.writer.bytes ++ frame) : Wrote frame (.standard b) (.standard b')
  | encrypt {e e' : EncryptionWriter Collected} (hidle : e'.Idle)
      (hbytes : e'.writer.bytes = e.writer.bytes ++ Cfb8.encryptor.output e.encryptor frame)
      (hcipher : e'.encryptor = Cfb8.encryptor.after e.encryptor frame) :
        Wrote frame (.encrypt e) (.encrypt e')

theorem writePacketInternal_wrote {κ : Type} [Deflate κ] {Sent : κ → Bytes → Bytes → Prop}
    {Complete : Bytes → Bytes → Prop} (h : Deflating Sent Complete) {turns : Nat}
    {threshold : Option Nat} {id : I32} {packet : Packet}
    (hsize : packet.size = packet.bytes.length) {w w' : DefaultWriter κ Collected} (hidle : w.Idle)
    (hok : writePacketInternal turns threshold id packet w = (.ok (), w')) :
    ∃ frame, Framed Complete threshold (content id packet) frame ∧ Wrote frame w.writer w'.writer := by
  obtain ⟨frame, hframe, hemitted, hsink⟩ :=
    writePacketInternal_framed h Collected.lawful hsize (.fresh hidle.1) hok
  have hroom : 0 < w'.capacity := by
    rw [writePacketInternal_capacity hsize hok]
    exact hidle.2
  rw [List.nil_append] at hemitted hsink
  refine ⟨frame, hframe, ?_⟩
  obtain ⟨k, b | e⟩ := w <;> obtain ⟨k', b' | e'⟩ := w' <;> try exact hemitted.elim
  · obtain ⟨done, hdelivering⟩ := hemitted
    have hidentity : Staged.encoded b.encryptor frame = frame := Mealy.identity_output _ _
    have hsink' : b'.writer.bytes = b.writer.bytes ++ Staged.encoded b.encryptor frame := hsink
    obtain ⟨hbuffer, -⟩ := hdelivering.all hsink'
    rw [hidentity] at hsink'
    exact .standard ⟨hbuffer, hroom⟩ hsink'
  · obtain ⟨done, hdelivering⟩ := hemitted
    obtain ⟨hbuffer, hcipher⟩ := hdelivering.all hsink
    exact .encrypt ⟨hbuffer, hroom⟩ hsink hcipher

/-! ### The link -/

section Link
variable {X : Type} {Complete : Bytes → Bytes → Prop} {out : X → Outgoing} {Late : X → Prop}
  {fresh : Cfb8}

theorem Frames.append {packets packets' : List Outgoing} {bytes bytes' : Bytes}
    (h : Frames Complete packets bytes) (h' : Frames Complete packets' bytes') :
    Frames Complete (packets ++ packets') (bytes ++ bytes') := by
  induction h with
  | nil => exact h'
  | cons hframe _ ih =>
    rw [List.append_assoc]
    exact .cons hframe ih

theorem Frames.snoc {packets : List Outgoing} {bytes frame : Bytes} {p : Outgoing}
    (h : Frames Complete packets bytes)
    (hframe : Framed Complete p.threshold (content p.id p.packet) frame) :
    Frames Complete (packets ++ [p]) (bytes ++ frame) := by
  have hlast : Frames Complete [p] (frame ++ []) := .cons hframe .nil
  rw [List.append_nil] at hlast
  exact h.append hlast

/-- Between `w` and `b` are the packets of `queue`. Where only the writer encrypts, either all of them
were written before it did, or all of them since; `Late` tells which. -/
inductive Link (Complete : Bytes → Bytes → Prop) (out : X → Outgoing) (Late : X → Prop) (fresh : Cfb8) :
    DefaultWriterState Collected → BufReader (DefaultReader Segments) → List X → Prop
  | plain {s : BufferedWriter Collected} {b : BufReader (DefaultReader Segments)} {c : Bytes}
      {queue : List X} (hidle : s.Idle) (hread : Buffered (DefaultReader.Arrived none) b c)
      (hframes : Frames Complete (queue.map out) (c ++ s.writer.bytes)) :
    Link Complete out Late fresh (.standard s) b queue
  | encrypted {e : EncryptionWriter Collected} {b : BufReader (DefaultReader Segments)} {c : Bytes}
      {cipher : Cfb8}
      {queue : List X} (hidle : e.Idle) (hread : Buffered (DefaultReader.Arrived (some cipher)) b c)
      (hframes : Frames Complete (queue.map out) (c ++ Cfb8.decryptor.output cipher e.writer.bytes))
      (hcipher : Cfb8.decryptor.after cipher e.writer.bytes = e.encryptor) :
    Link Complete out Late fresh (.encrypt e) b queue
  | draining {e : EncryptionWriter Collected} {b : BufReader (DefaultReader Segments)} {c : Bytes}
      {queue : List X}
      (hidle : e.Idle) (hread : Buffered (DefaultReader.Arrived none) b c)
      (hearly : ∀ x ∈ queue, ¬ Late x)
      (hframes : Frames Complete (queue.map out) (c ++ e.writer.bytes)) (hfresh : e.encryptor = fresh) :
      Link Complete out Late fresh (.encrypt e) b queue
  | ahead {e : EncryptionWriter Collected} {b : BufReader (DefaultReader Segments)}
      {c plain : Bytes} {queue : List X}
      (hidle : e.Idle) (hread : Buffered (DefaultReader.Arrived none) b c) (hbuffer : b.buffer = [])
      (hlate : ∀ x ∈ queue, Late x) (hframes : Frames Complete (queue.map out) plain)
      (hbytes : c ++ e.writer.bytes = Cfb8.encryptor.output fresh plain)
      (hcipher : e.encryptor = Cfb8.encryptor.after fresh plain) :
        Link Complete out Late fresh (.encrypt e) b queue
  | awaited {s : BufferedWriter Collected} {b : BufReader (DefaultReader Segments)} (hidle : s.Idle)
      (hread : Buffered (DefaultReader.Arrived (some fresh)) b []) (hbytes : s.writer.bytes = []) :
      Link Complete out Late fresh (.standard s) b []

/-- Each frame tells its length. -/
theorem Framed.length {threshold : Option Nat} {content frame : Bytes}
    (h : Framed Complete threshold content frame) :
    ∃ lead body, frame = lead ++ body ∧
      ∀ tail, Leb128.decode 3 (lead ++ body ++ tail) = some (body.length, body ++ tail) := by
  cases h with
  | plain hmax => exact ⟨_, _, rfl, fun tail => decode_length hmax⟩
  | @below threshold _ hbelow hmax =>
    have hlength : content.length + 1 = (Leb128.encode 0 ++ content).length := by
      rw [List.length_append, Leb128.encode_last (by decide), List.length_singleton, Nat.add_comm]
    rw [hlength] at hmax ⊢
    exact ⟨_, _, rfl, fun tail => decode_length hmax⟩
  | compressed habove hint hbody hmax => exact ⟨_, _, rfl, fun tail => decode_length hmax⟩

/-- What has as many bytes behind a length as that says starts with the frame. -/
theorem Framed.arrived {threshold : Option Nat} {content frame frames c more rest : Bytes} {n : Nat}
    (h : Framed Complete threshold content frame) (hall : c ++ more = frame ++ frames)
    (hready : Leb128.decode 3 c = some (n, rest)) (hn : n ≤ rest.length) :
    ∃ left, c = frame ++ left ∧ left ++ more = frames := by
  obtain ⟨lead, body, rfl, hlength⟩ := h.length
  obtain ⟨used, rfl, hused, hdecode⟩ := Leb128.decode_split hready
  have hfirst := hdecode 3 (rest ++ more) hused
  rw [← List.append_assoc, hall, hlength] at hfirst
  simp only [Option.some.injEq, Prod.mk.injEq] at hfirst
  obtain ⟨hlead, htail⟩ := hfirst
  have hbody : rest.take n = body := by
    have htake := congrArg (List.take n) htail
    rw [List.take_append_of_le_length hn, ← hlead, List.take_left] at htake
    rw [← hlead]
    exact htake.symm
  have hrest : rest = body ++ rest.drop n := by rw [← hbody, List.take_append_drop]
  have hused' : used = lead := by
    rw [List.append_assoc, List.append_assoc, ← htail] at hall
    exact List.append_cancel_right hall
  refine ⟨rest.drop n, ?_, ?_⟩
  · rw [hused', List.append_assoc, ← hrest]
  · rw [hrest, List.append_assoc] at htail
    exact (List.append_cancel_left htail).symm

theorem frames_cons {p : Outgoing} {packets : List Outgoing} {c : Bytes}
    (h : Frames Complete (p :: packets) c) :
    ∃ frame frames, Framed Complete p.threshold (content p.id p.packet) frame ∧
      Frames Complete packets frames ∧
      c = frame ++ frames := by
  cases h with
  | cons hframe hrest => exact ⟨_, _, hframe, hrest, rfl⟩

namespace Link
variable {w w' : DefaultWriterState Collected} {b : BufReader (DefaultReader Segments)} {queue : List X}

theorem frames_nil {c : Bytes} (h : Frames Complete [] c) : c = [] := by
  cases h
  rfl

theorem idle {κ : Type} {w : DefaultWriter κ Collected}
    (h : Link Complete out Late fresh w.writer b queue) : w.Idle := by
  obtain ⟨k, w⟩ := w
  cases h <;> assumption

/-- Nothing of a queue is both early and late. -/
theorem none_late (hlate : ∀ x ∈ queue, Late x) (hearly : ∀ x ∈ queue, ¬ Late x) : queue = [] :=
  List.eq_nil_iff_forall_not_mem.mpr fun x hx => hearly x hx (hlate x hx)

theorem standard_of_arrived {c : Bytes} (h : Buffered (DefaultReader.Arrived none) b c) :
    ∃ t, b.inner = .standard t := by
  obtain ⟨-, _, harrived, -⟩ := h
  cases hinner : b.inner with
  | standard t => exact ⟨t, rfl⟩
  | decrypt d =>
    rw [hinner] at harrived
    cases harrived.2

/-- What is written joins the queue; the writer must not have fallen behind a switch of the
reader's, and must not be ahead with anything in front of its own. -/
theorem write (h : Link Complete out Late fresh w b queue) {x : X} {frame : Bytes}
    (hframe : Framed Complete (out x).threshold (content (out x).id (out x).packet) frame)
    (hwrote : Wrote frame w w') (hbehind : ∀ s, w = .standard s → ∃ t, b.inner = .standard t)
    (hahead : ∀ e t, w = .encrypt e → b.inner = .standard t → Late x ∧ ∀ x ∈ queue, Late x) :
    Link Complete out Late fresh w' b (queue ++ [x]) := by
  have hsnoc : ∀ {c}, Frames Complete (queue.map out) c →
      Frames Complete ((queue ++ [x]).map out) (c ++ frame) := by
    intro c hframes
    rw [List.map_append]
    exact hframes.snoc hframe
  cases h with
  | plain hidle hread hframes =>
    cases hwrote with
    | standard hidle' hbytes =>
      refine .plain hidle' hread ?_
      rw [hbytes, ← List.append_assoc]
      exact hsnoc hframes
  | encrypted hidle hread hframes hcipher =>
    cases hwrote with
    | encrypt hidle' hbytes hcipher' =>
      refine .encrypted hidle' hread ?_ ?_
      · rw [hbytes, Mealy.output_append, hcipher, Cfb8.decrypt_encrypt, ← List.append_assoc]
        exact hsnoc hframes
      · rw [hbytes, Mealy.after_append, hcipher, hcipher']
        exact (Cfb8.inverse.after rfl frame).symm
  | @draining e _ c _ hidle hread hearly hframes hfresh =>
    obtain ⟨t, ht⟩ := standard_of_arrived hread
    obtain ⟨hcap, behind, harrived, rfl⟩ := hread
    obtain ⟨hx, hlate⟩ := hahead e t rfl ht
    obtain rfl := none_late hlate hearly
    have hnone := frames_nil hframes
    simp only [List.append_eq_nil_iff] at hnone
    obtain ⟨⟨hbuffer, rfl⟩, hsent⟩ := hnone
    cases hwrote with
    | encrypt hidle' hbytes hcipher =>
      refine .ahead hidle' ⟨hcap, [], harrived, by rw [hbuffer]⟩ hbuffer (by simpa using hx)
        (hsnoc .nil) ?_ ?_
      · rw [hbytes, hsent, hfresh]
        rfl
      · rw [hcipher, hfresh]
        rfl
  | @ahead e _ c plain _ hidle hread hbuffer hlate hframes hbytes hcipher =>
    obtain ⟨t, ht⟩ := standard_of_arrived hread
    obtain ⟨hx, -⟩ := hahead e t rfl ht
    cases hwrote with
    | encrypt hidle' hbytes' hcipher' =>
      refine .ahead hidle' hread hbuffer ?_ (hsnoc hframes) ?_ ?_
      · intro y hy
        rcases List.mem_append.mp hy with hy | hy
        · exact hlate y hy
        · rwa [List.mem_singleton.mp hy]
      · rw [hbytes', ← List.append_assoc, hbytes, hcipher, Mealy.output_append]
      · rw [hcipher', hcipher, Mealy.after_append]
  | @awaited s _ hidle hread hbytes =>
    obtain ⟨t, ht⟩ := hbehind s rfl
    obtain ⟨-, _, harrived, -⟩ := hread
    rw [ht] at harrived
    cases harrived.2

/-- What goes over has arrived, and the next of it is as much nearer. -/
theorem deliver (h : Link Complete out Late fresh w b queue) (k : Nat) (hs : w.unsent.take k ≠ []) :
    Link Complete out Late fresh (w.handOver k) {b with inner := b.inner.push (w.unsent.take k) hs}
      queue := by
  have hpush : ∀ {cipher c}, Buffered (DefaultReader.Arrived cipher) b c →
      Buffered (DefaultReader.Arrived (cipher.map fun s => Cfb8.decryptor.after s (w.unsent.take k)))
        {b with inner := b.inner.push (w.unsent.take k) hs}
        (c ++ DefaultReader.continued cipher (w.unsent.take k)) := by
    intro cipher c hread
    obtain ⟨hcap, behind, harrived, rfl⟩ := hread
    have harrived' := DefaultReader.arrived (b.inner.push (w.unsent.take k) hs)
    rw [DefaultReader.held_push, DefaultReader.last_push, harrived.held_eq, harrived.2] at harrived'
    exact ⟨hcap, _, harrived', List.append_assoc ..⟩
  cases h with
  | @plain s _ c _ hidle hread hframes =>
    refine .plain hidle (hpush hread) ?_
    simpa [DefaultWriterState.unsent, DefaultReader.continued] using hframes
  | @encrypted e _ c cipher _ hidle hread hframes hcipher =>
    have hsplit : e.writer.bytes = e.writer.bytes.take k ++ e.writer.bytes.drop k :=
      (List.take_append_drop ..).symm
    refine .encrypted hidle (hpush hread) ?_ ?_
    · rw [hsplit, Mealy.output_append, ← List.append_assoc] at hframes
      exact hframes
    · rw [hsplit, Mealy.after_append] at hcipher
      exact hcipher
  | @draining e _ c _ hidle hread hearly hframes hfresh =>
    refine .draining hidle (hpush hread) hearly ?_ hfresh
    simpa [DefaultWriterState.unsent, DefaultReader.continued] using hframes
  | @ahead e _ c plain _ hidle hread hbuffer hlate hframes hbytes hcipher =>
    refine .ahead hidle (hpush hread) hbuffer hlate hframes ?_ hcipher
    simpa [DefaultWriterState.unsent, DefaultReader.continued] using hbytes
  | awaited hidle hread hbytes =>
    rw [DefaultWriterState.unsent, hbytes] at hs
    exact absurd List.take_nil hs

theorem held_of_arrived {cipher : Option Cfb8} {c : Bytes}
    (h : Buffered (DefaultReader.Arrived cipher) b c) :
    b.inner.last = cipher ∧ b.buffer ++ b.inner.held = c := by
  obtain ⟨-, behind, harrived, rfl⟩ := h
  exact ⟨harrived.2, by rw [harrived.held_eq]⟩

/-- The first packet can be read once its frame has arrived, and what stays behind it is the others. -/
theorem read {x : X} (h : Link Complete out Late fresh w b (x :: queue))
    (hlate : ∀ t, b.inner = .standard t → ¬ Late x) {n : Nat} {rest : Bytes}
    (hready : Leb128.decode 3 (b.buffer ++ b.inner.held) = some (n, rest)) (hn : n ≤ rest.length) :
    ∃ frame left, Framed Complete (out x).threshold (content (out x).id (out x).packet) frame ∧
      Buffered (DefaultReader.Arrived b.inner.last) b (frame ++ left) ∧
      ∀ {b'}, Buffered (DefaultReader.Arrived b.inner.last) b' left →
      Link Complete out Late fresh w b' queue := by
  cases h with
  | @plain s _ c _ hidle hread hframes =>
    obtain ⟨hlast, hheld⟩ := held_of_arrived hread
    rw [hheld] at hready
    obtain ⟨frame, frames, hframe, hrest, hall⟩ := frames_cons hframes
    obtain ⟨left, rfl, hleft⟩ := hframe.arrived hall hready hn
    rw [hlast]
    refine ⟨frame, left, hframe, hread, fun hread' => .plain hidle hread' ?_⟩
    rwa [hleft]
  | @encrypted e _ c cipher _ hidle hread hframes hcipher =>
    obtain ⟨hlast, hheld⟩ := held_of_arrived hread
    rw [hheld] at hready
    obtain ⟨frame, frames, hframe, hrest, hall⟩ := frames_cons hframes
    obtain ⟨left, rfl, hleft⟩ := hframe.arrived hall hready hn
    rw [hlast]
    refine ⟨frame, left, hframe, hread, fun hread' => .encrypted hidle hread' ?_ hcipher⟩
    rwa [hleft]
  | @draining e _ c _ hidle hread hearly hframes hfresh =>
    obtain ⟨hlast, hheld⟩ := held_of_arrived hread
    rw [hheld] at hready
    obtain ⟨frame, frames, hframe, hrest, hall⟩ := frames_cons hframes
    obtain ⟨left, rfl, hleft⟩ := hframe.arrived hall hready hn
    rw [hlast]
    refine ⟨frame, left, hframe, hread, fun hread' =>
      .draining hidle hread' (fun y hy => hearly y (List.mem_cons_of_mem x hy)) ?_ hfresh⟩
    rwa [hleft]
  | ahead hidle hread hbuffer hlate' =>
    obtain ⟨t, ht⟩ := standard_of_arrived hread
    exact absurd (hlate' x (List.mem_cons_self ..)) (hlate t ht)

/-- When all that was sent is there, the next packet is. -/
theorem ready {x : X} (h : Link Complete out Late fresh w b (x :: queue))
    (hlate : ∀ t, b.inner = .standard t → ¬ Late x) (hsent : w.unsent = []) : ∃ n rest,
      Leb128.decode 3 (b.buffer ++ b.inner.held) = some (n, rest) ∧ n ≤ rest.length := by
  have hframed : ∀ {cipher c}, Buffered (DefaultReader.Arrived cipher) b c →
      Frames Complete ((x :: queue).map out) (c ++ []) → ∃ n rest,
      Leb128.decode 3 (b.buffer ++ b.inner.held) = some (n, rest) ∧ n ≤ rest.length := by
    intro cipher c hread hframes
    obtain ⟨-, hheld⟩ := held_of_arrived hread
    obtain ⟨frame, frames, hframe, -, hall⟩ := frames_cons hframes
    obtain ⟨lead, body, rfl, hlength⟩ := hframe.length
    rw [List.append_nil] at hall
    rw [hheld, hall]
    exact ⟨_, _, hlength frames, by simp⟩
  cases h with
  | plain hidle hread hframes =>
    rw [DefaultWriterState.unsent] at hsent
    rw [hsent] at hframes
    exact hframed hread hframes
  | encrypted hidle hread hframes =>
    rw [DefaultWriterState.unsent] at hsent
    rw [hsent] at hframes
    exact hframed hread hframes
  | draining hidle hread hearly hframes =>
    rw [DefaultWriterState.unsent] at hsent
    rw [hsent] at hframes
    exact hframed hread hframes
  | ahead hidle hread hbuffer hlate' =>
    obtain ⟨t, ht⟩ := standard_of_arrived hread
    exact absurd (hlate' x (List.mem_cons_self ..)) (hlate t ht)

/-- The writer switches: what it wrote before is on its way, or the reader waits for it. -/
theorem writerSwitches {s : BufferedWriter Collected}
    (h : Link Complete out Late fresh (.standard s) b queue) (hearly : ∀ x ∈ queue, ¬ Late x) :
    Link Complete out Late fresh (.encrypt ⟨fresh, s.writer, [], s.capacity⟩) b queue := by
  cases h with
  | plain hidle hread hframes => exact .draining ⟨rfl, hidle.2⟩ hread hearly hframes rfl
  | awaited hidle hread hbytes =>
    refine .encrypted ⟨rfl, hidle.2⟩ hread ?_ ?_
    · rw [hbytes]
      exact .nil
    · rw [hbytes]
      rfl

/-- The reader switches, with nothing unread that was written before the writer did. -/
theorem readerSwitches {t : Segments} (h : Link Complete out Late fresh w b queue)
    (ht : b.inner = .standard t) (hlate : ∀ x ∈ queue, Late x)
    (hearly : ∀ s, w = .standard s → ∀ x ∈ queue, ¬ Late x) :
    Link Complete out Late fresh w {b with inner := .decrypt ⟨fresh, t⟩} queue := by
  have hdecrypts : ∀ {c}, t.segments.flatten = c → 0 < b.capacity → b.buffer = [] →
      Buffered (DefaultReader.Arrived (some (Cfb8.decryptor.after fresh c)))
        {b with inner := .decrypt ⟨fresh, t⟩} (Cfb8.decryptor.output fresh c) := by
    intro c hc hcap hbuffer
    subst hc
    exact ⟨hcap, _, ⟨⟨_, rfl, rfl⟩, rfl⟩, by rw [hbuffer, List.nil_append]⟩
  have hholds : ∀ {c}, Buffered (DefaultReader.Arrived none) b c →
      0 < b.capacity ∧ c = b.buffer ++ t.segments.flatten := by
    intro c hread
    obtain ⟨-, hheld⟩ := held_of_arrived hread
    rw [ht] at hheld
    exact ⟨hread.1, hheld.symm⟩
  cases h with
  | @plain s _ c _ hidle hread hframes =>
    obtain rfl := none_late hlate (hearly s rfl)
    have hnone := frames_nil hframes
    obtain ⟨hcap, rfl⟩ := hholds hread
    simp only [List.append_eq_nil_iff] at hnone
    obtain ⟨⟨hbuffer, harrived⟩, hsent⟩ := hnone
    exact .awaited hidle (hdecrypts harrived hcap hbuffer) hsent
  | @encrypted e _ c cipher _ hidle hread hframes hcipher =>
    obtain ⟨-, _, harrived, -⟩ := hread
    rw [ht] at harrived
    cases harrived.2
  | @draining e _ c _ hidle hread hearly hframes hfresh =>
    obtain rfl := none_late hlate hearly
    have hnone := frames_nil hframes
    obtain ⟨hcap, rfl⟩ := hholds hread
    simp only [List.append_eq_nil_iff] at hnone
    obtain ⟨⟨hbuffer, harrived⟩, hsent⟩ := hnone
    refine .encrypted hidle (hdecrypts harrived hcap hbuffer) ?_ ?_
    · rw [hsent]
      exact .nil
    · rw [hsent]
      exact hfresh.symm
  | @ahead e _ c plain _ hidle hread hbuffer hlate' hframes hbytes hcipher =>
    obtain ⟨hcap, rfl⟩ := hholds hread
    rw [hbuffer, List.nil_append] at hbytes
    refine .encrypted hidle (hdecrypts rfl hcap hbuffer) ?_ ?_
    · rw [← Mealy.output_append, hbytes, Cfb8.decrypt_encrypt]
      exact hframes
    · rw [← Mealy.after_append, hbytes, hcipher]
      exact (Cfb8.inverse.after rfl plain).symm
  | awaited hidle hread hbytes =>
    obtain ⟨-, _, harrived, -⟩ := hread
    rw [ht] at harrived
    cases harrived.2

/-- With nothing in the queue there is nothing on the way. -/
theorem clear (h : Link Complete out Late fresh w b []) :
    w.unsent = [] ∧ b.buffer = [] ∧ b.inner.held = [] := by
  have hboth : ∀ {cipher c more}, Buffered (DefaultReader.Arrived cipher) b c → c ++ more = [] →
      more = [] ∧ b.buffer = [] ∧ b.inner.held = [] := by
    intro cipher c more hread hnone
    obtain ⟨-, hheld⟩ := held_of_arrived hread
    rw [← hheld] at hnone
    simp only [List.append_eq_nil_iff] at hnone
    exact ⟨hnone.2, hnone.1⟩
  cases h with
  | plain hidle hread hframes => exact hboth hread (frames_nil hframes)
  | @encrypted e _ c cipher _ hidle hread hframes hcipher =>
    obtain ⟨hsent, hnone⟩ := hboth hread (frames_nil hframes)
    refine ⟨List.length_eq_zero_iff.mp ?_, hnone⟩
    rw [← Mealy.length_output Cfb8.decryptor cipher, DefaultWriterState.unsent, hsent]
    rfl
  | draining hidle hread hearly hframes hfresh => exact hboth hread (frames_nil hframes)
  | ahead hidle hread hbuffer hlate hframes hbytes hcipher =>
    obtain rfl := frames_nil hframes
    exact hboth hread hbytes
  | awaited hidle hread hbytes =>
    obtain ⟨-, hheld⟩ := held_of_arrived hread
    exact ⟨hbytes, List.append_eq_nil_iff.mp hheld⟩

end Link

end Link

end Protocraft
