import Mathlib.Data.Fin.Tuple.Basic
import Protocraft.Stream.Delimited

/-! Programs that read a language.

A language spells each value as some words. A program accepts it when it makes the value of the
word that stands in front, and tells bytes that end in the middle of every word from bytes that
no word begins with (`Accepts`). Such programs compose as their languages do, in a row and by
what came before, and a language that is accepted is unambiguous (`Accepts.unique`). -/
namespace Protocraft.Stream
open Program

/-- How each value may be spelled. -/
abbrev Spelling (α : Type) : Type := α → Bytes → Prop

namespace Spelling
variable {α α' : Type}

/-- More bytes might make a word of these. -/
def Unfinished (L : Spelling α) (c : Bytes) : Prop := ∃ a word, L a word ∧ c <+: word ∧ c ≠ word

/-- No word begins with these bytes, nor they with a word. -/
def Hopeless (L : Spelling α) (c : Bytes) : Prop := ∀ a word, L a word → ¬ word <+: c ∧ ¬ c <+: word

theorem trichotomy (L : Spelling α) (c : Bytes) :
    (∃ a word rest, c = word ++ rest ∧ L a word) ∨ L.Unfinished c ∨ L.Hopeless c := by
  by_cases hword : ∃ a word rest, c = word ++ rest ∧ L a word
  · exact .inl hword
  by_cases hunfinished : L.Unfinished c
  · exact .inr (.inl hunfinished)
  refine .inr (.inr fun a word hL => ⟨fun hbegins => ?_, fun hbegins => ?_⟩)
  · obtain ⟨rest, rfl⟩ := hbegins
    exact hword ⟨a, word, rest, rfl, hL⟩
  · refine hunfinished ⟨a, word, hL, hbegins, fun hsame => hword ⟨a, word, [], ?_, hL⟩⟩
    rw [List.append_nil, hsame]

/-- No bytes for one value. -/
def one (a : α) : Spelling α := fun a' word => a' = a ∧ word = []

def exactly (n : Nat) : Spelling Bytes := fun bytes word => bytes = word ∧ word.length = n

/-- A word, and one of the language that its value asks for. -/
def seq (L : Spelling α) (M : α → Spelling α') : Spelling α' := fun b word =>
  ∃ a first second, L a first ∧ M a b second ∧ word = first ++ second

def image (f : α → α') (L : Spelling α) : Spelling α' := fun b word => ∃ a, b = f a ∧ L a word

/-- A word for each component. -/
def row {n : Nat} {α : Fin n → Type} (L : (i : Fin n) → Spelling (α i)) : Spelling ((i : Fin n) → α i) :=
  fun v word => ∃ words : Fin n → Bytes, word = (List.ofFn words).flatten ∧ ∀ i, L i (v i) (words i)

theorem row_zero {α : Fin 0 → Type} (L : (i : Fin 0) → Spelling (α i)) (v : (i : Fin 0) → α i)
    (word : Bytes) : row L v word ↔ word = [] := by
  constructor
  · intro h
    obtain ⟨words, hword, -⟩ := h
    exact hword
  · intro h
    exact ⟨fun i => i.elim0, h, fun i => i.elim0⟩

theorem row_succ {n : Nat} {α : Fin (n + 1) → Type} (L : (i : Fin (n + 1)) → Spelling (α i))
    (v : (i : Fin (n + 1)) → α i) (word : Bytes) :
    row L v word ↔ ∃ first rest, L 0 (v 0) first ∧ row (fun i => L i.succ) (fun i => v i.succ) rest ∧
      word = first ++ rest := by
  constructor
  · intro h
    obtain ⟨words, rfl, hwords⟩ := h
    refine ⟨words 0, _, hwords 0, ⟨fun i => words i.succ, rfl, fun i => hwords i.succ⟩, ?_⟩
    rw [List.ofFn_succ, List.flatten_cons]
  · intro h
    obtain ⟨first, rest, hfirst, ⟨words, rfl, hwords⟩, rfl⟩ := h
    refine ⟨Fin.cons first words, ?_, fun i => ?_⟩
    · rw [List.ofFn_succ, List.flatten_cons]
      rfl
    · cases i using Fin.cases with
      | zero => exact hfirst
      | succ i => exact hwords i

end Spelling

/-- `early` is the error of bytes that end too early, `malformed` that of those with no hope. -/
structure Accepts {ε β α : Type} (L : Spelling α) (early malformed : ε) (p : Program ε β α) : Prop where
  inhabited : ∃ a word, L a word
  reads : ∀ {a word}, L a word → ∀ rem rest, p.eval rem (word ++ rest) = (.ok a, rest)
  unfinished : ∀ {c}, L.Unfinished c → ∀ rem, (p.eval rem c).1 = .error early
  hopeless : ∀ {c}, L.Hopeless c → ∀ rem, (p.eval rem c).1 = .error malformed

namespace Accepts
variable {ε β α α' : Type} {L : Spelling α} {early malformed : ε} {p : Program ε β α}

theorem congr {L' : Spelling α} (h : Accepts L early malformed p)
    (hsame : ∀ a word, L' a word ↔ L a word) : Accepts L' early malformed p := by
  obtain rfl : L' = L := funext fun a => funext fun word => propext (hsame a word)
  exact h

theorem pure (a : α) : Accepts (Spelling.one a) early malformed (Pure.pure a : Program ε β α) where
  inhabited := ⟨a, [], rfl, rfl⟩
  reads h rem rest := by
    obtain ⟨rfl, rfl⟩ := h
    rfl
  unfinished h rem := by
    obtain ⟨a', word, ⟨-, rfl⟩, hbegins, hne⟩ := h
    exact absurd (List.prefix_nil.mp hbegins) hne
  hopeless h rem := absurd List.nil_prefix (h a [] ⟨rfl, rfl⟩).1

theorem bind (hp : Accepts L early malformed p) {M : α → Spelling α'} {f : α → Program ε β α'}
    (hf : ∀ a, Accepts (M a) early malformed (f a)) : Accepts (L.seq M) early malformed (p >>= f) where
  inhabited := by
    obtain ⟨a, first, hfirst⟩ := hp.inhabited
    obtain ⟨b, second, hsecond⟩ := (hf a).inhabited
    exact ⟨b, first ++ second, a, first, second, hfirst, hsecond, rfl⟩
  reads h rem rest := by
    obtain ⟨a, first, second, hfirst, hsecond, rfl⟩ := h
    rw [List.append_assoc, eval_bind_ok (hp.reads hfirst rem _)]
    exact (hf a).reads hsecond rem rest
  unfinished {c} h rem := by
    obtain ⟨b, word, ⟨a, first, second, hfirst, hsecond, rfl⟩, hbegins, hne⟩ := h
    by_cases hwhole : first <+: c
    · -- The first word is all there, so the second one runs out.
      obtain ⟨rest, rfl⟩ := hwhole
      rw [eval_bind_ok (hp.reads hfirst rem rest)]
      refine (hf a).unfinished
        ⟨b, second, hsecond, (List.prefix_append_right_inj first).mp hbegins, ?_⟩ rem
      intro hsame
      rw [hsame] at hne
      exact hne rfl
    · have hpart : c <+: first :=
        (List.prefix_or_prefix_of_prefix hbegins (List.prefix_append first second)).resolve_right hwhole
      have hfailed := hp.unfinished
        ⟨a, first, hfirst, hpart, fun hsame => hwhole (hsame ▸ List.prefix_refl first)⟩ rem
      exact congrArg Prod.fst (eval_bind_error (Prod.ext hfailed rfl))
  hopeless {c} h rem := by
    rcases L.trichotomy c with hword | hunfinished | hhopeless
    · obtain ⟨a, first, rest, rfl, hfirst⟩ := hword
      rw [eval_bind_ok (hp.reads hfirst rem rest)]
      refine (hf a).hopeless (fun b second hsecond => ?_) rem
      obtain ⟨hends, hbegins⟩ := h b (first ++ second) ⟨a, first, second, hfirst, hsecond, rfl⟩
      rw [List.prefix_append_right_inj] at hends hbegins
      exact ⟨hends, hbegins⟩
    · -- Some second word would go on from what is there.
      obtain ⟨a, first, hfirst, hbegins, -⟩ := hunfinished
      obtain ⟨b, second, hsecond⟩ := (hf a).inhabited
      obtain ⟨-, hnone⟩ := h b (first ++ second) ⟨a, first, second, hfirst, hsecond, rfl⟩
      exact absurd (hbegins.trans (List.prefix_append first second)) hnone
    · exact congrArg Prod.fst (eval_bind_error (Prod.ext (hp.hopeless hhopeless rem) rfl))

/-- The value put to use. -/
theorem map (hp : Accepts L early malformed p) (f : α → α') :
    Accepts (L.image f) early malformed (p >>= fun a => Pure.pure (f a)) := by
  refine (hp.bind fun a => pure (f a)).congr fun b word => ?_
  constructor
  · intro h
    obtain ⟨a, rfl, hword⟩ := h
    exact ⟨a, word, [], hword, ⟨rfl, rfl⟩, (List.append_nil word).symm⟩
  · intro h
    obtain ⟨a, first, second, hfirst, ⟨rfl, rfl⟩, rfl⟩ := h
    rw [List.append_nil]
    exact ⟨a, rfl, hfirst⟩

theorem readExact (n : Nat) {f : IoError → ε} (hearly : f failedToFill = early) :
    Accepts (Spelling.exactly n) early malformed
      (.readExact n fun reply => .done (reply.mapError f) : Program ε β Bytes) where
  inhabited := ⟨List.replicate n 0, _, rfl, List.length_replicate⟩
  reads h rem rest := by
    obtain ⟨rfl, rfl⟩ := h
    simp only [eval, exactly_append]
    rfl
  unfinished {c} h rem := by
    obtain ⟨-, word, ⟨-, hlength⟩, hbegins, hne⟩ := h
    have hlt : ¬ n ≤ c.length := fun hle => hne (hbegins.eq_of_length_le (by omega))
    simp only [eval, Stream.exactly, if_neg hlt]
    exact congrArg Except.error hearly
  hopeless {c} h rem := by
    by_cases hle : n ≤ c.length
    · exact absurd (List.take_prefix n c) (h _ _ ⟨rfl, List.length_take_of_le hle⟩).1
    · refine absurd (List.prefix_append c (List.replicate (n - c.length) 0)) (h _ _ ⟨rfl, ?_⟩).2
      rw [List.length_append, List.length_replicate]
      omega

/-! ### What is accepted -/

/-- No word of an accepted language begins another one. -/
theorem unique (h : Accepts L early malformed p) (rem : Bytes → β) {a a' : α} {word word' : Bytes}
    (hL : L a word) (hL' : L a' word') (hbegins : word <+: word') : a = a' ∧ word = word' := by
  obtain ⟨rest, rfl⟩ := hbegins
  have hread := h.reads hL' rem []
  rw [List.append_nil, h.reads hL rem rest] at hread
  cases hread
  exact ⟨rfl, (List.append_nil word).symm⟩

/-- What an accepting program comes to. -/
inductive Outcome (L : Spelling α) (early malformed : ε) (c : Bytes) : Except ε α × Bytes → Prop
  | read {a : α} {word rest : Bytes} (hc : c = word ++ rest) (hword : L a word) :
    Outcome L early malformed c (.ok a, rest)
  | unfinished {rest : Bytes} (hc : L.Unfinished c) : Outcome L early malformed c (.error early, rest)
  | hopeless {rest : Bytes} (hc : L.Hopeless c) : Outcome L early malformed c (.error malformed, rest)

theorem outcome (h : Accepts L early malformed p) (rem : Bytes → β) (c : Bytes) :
    Outcome L early malformed c (p.eval rem c) := by
  rcases hrun : p.eval rem c with ⟨reply, rest⟩
  rcases L.trichotomy c with hword | hunfinished | hhopeless
  · obtain ⟨a, word, rest', rfl, hword⟩ := hword
    rw [h.reads hword] at hrun
    cases hrun
    exact .read rfl hword
  · obtain rfl : reply = .error early := by rw [← h.unfinished hunfinished rem, hrun]
    exact .unfinished hunfinished
  · obtain rfl : reply = .error malformed := by rw [← h.hopeless hhopeless rem, hrun]
    exact .hopeless hhopeless

section Decides
variable (h : Accepts L early malformed p) (rem : Bytes → β) (c : Bytes)
include h

theorem ok_iff {a : α} : (p.eval rem c).1 = .ok a ↔ ∃ word rest, c = word ++ rest ∧ L a word := by
  constructor
  · intro hok
    have houtcome := h.outcome rem c
    rcases hrun : p.eval rem c with ⟨reply, rest⟩
    rw [hrun] at hok houtcome
    cases houtcome with
    | read hc hword =>
      cases hok
      exact ⟨_, rest, hc, hword⟩
    | unfinished => cases hok
    | hopeless => cases hok
  · intro hword
    obtain ⟨word, rest, rfl, hword⟩ := hword
    rw [h.reads hword]

theorem unfinished_iff (hdiffer : early ≠ malformed) :
    (p.eval rem c).1 = .error early ↔ L.Unfinished c := by
  refine ⟨fun hfailed => ?_, fun hc => h.unfinished hc rem⟩
  have houtcome := h.outcome rem c
  rcases hrun : p.eval rem c with ⟨reply, rest⟩
  rw [hrun] at hfailed houtcome
  cases houtcome with
  | read => cases hfailed
  | unfinished hc => exact hc
  | hopeless => exact absurd (Except.error.inj hfailed).symm hdiffer

theorem hopeless_iff (hdiffer : early ≠ malformed) : (p.eval rem c).1 = .error malformed ↔
    L.Hopeless c := by
  refine ⟨fun hfailed => ?_, fun hc => h.hopeless hc rem⟩
  have houtcome := h.outcome rem c
  rcases hrun : p.eval rem c with ⟨reply, rest⟩
  rw [hrun] at hfailed houtcome
  cases houtcome with
  | read => cases hfailed
  | unfinished => exact absurd (Except.error.inj hfailed) hdiffer
  | hopeless hc => exact hc

end Decides

end Accepts

end Protocraft.Stream
