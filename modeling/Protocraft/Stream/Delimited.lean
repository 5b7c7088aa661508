import Protocraft.Stream.Program

/-! Programs that know where their bytes end.

`Delimits E p bytes a`: of these bytes, whatever follows them, `p` makes `a`, and it leaves
what follows; of fewer it makes nothing. Such programs compose in a row (`Delimits.bind`),
and what they read is a prefix code (`Delimits.unique`). -/
namespace Protocraft.Stream
open Program

section Delimits
variable {ε β α α' : Type} {E : ε → Prop}

structure Delimits (E : ε → Prop) (p : Program ε β α) (bytes : Bytes) (a : α) : Prop where
  reads : ∀ rem rest, p.eval rem (bytes ++ rest) = (.ok a, rest)
  /-- A proper part of the bytes runs out. -/
  cut : ∀ rem {short : Bytes}, short <+: bytes → short ≠ bytes →
    ∃ e, (p.eval rem short).1 = .error e ∧ E e

namespace Delimits

theorem pure (a : α) : Delimits E (Pure.pure a : Program ε β α) [] a where
  reads _ _ := rfl
  cut _ _ hshort hne := absurd (List.prefix_nil.mp hshort) hne

theorem bind {p : Program ε β α} {f : α → Program ε β α'} {bytes bytes' : Bytes} {a : α} {a' : α'}
    (hp : Delimits E p bytes a) (hf : Delimits E (f a) bytes' a') :
    Delimits E (p >>= f) (bytes ++ bytes') a' where
  reads rem rest := by
    rw [List.append_assoc, eval_bind_ok (hp.reads rem _)]
    exact hf.reads rem rest
  cut rem short hshort hne := by
    by_cases hwhole : bytes <+: short
    · -- The first program has all of its bytes, so the second one runs out.
      obtain ⟨short', rfl⟩ := hwhole
      rw [eval_bind_ok (hp.reads rem short')]
      apply hf.cut rem ((List.prefix_append_right_inj bytes).mp hshort)
      intro hsame
      rw [hsame] at hne
      exact hne rfl
    · have hpart : short <+: bytes := by
        apply (List.prefix_or_prefix_of_prefix hshort (List.prefix_append bytes bytes')).resolve_right
        exact hwhole
      obtain ⟨e, hfailed, he⟩ := hp.cut rem hpart fun hsame => hwhole (hsame ▸ List.prefix_refl bytes)
      exact ⟨e, congrArg Prod.fst (eval_bind_error (Prod.ext hfailed rfl)), he⟩

/-- The result put to use. -/
theorem map {p : Program ε β α} {bytes : Bytes} {a : α} (hp : Delimits E p bytes a) (f : α → α') :
    Delimits E (p >>= fun a => Pure.pure (f a)) bytes (f a) := by
  have hdone := hp.bind (f := fun a => Pure.pure (f a)) (pure (f a))
  rwa [List.append_nil] at hdone

theorem readExact {n : Nat} {bytes : Bytes} (hlength : bytes.length = n) {f : IoError → ε}
    (hE : ∀ e, E (f e)) : Delimits E
      (.readExact n fun reply => .done (reply.mapError f) : Program ε β Bytes) bytes bytes where
  reads rem rest := by
    subst hlength
    simp only [eval, exactly_append]
    rfl
  cut rem short hshort hne := by
    have hlt : ¬ n ≤ short.length := fun hle => hne (hshort.eq_of_length_le (by omega))
    refine ⟨f failedToFill, ?_, hE _⟩
    simp only [eval, exactly, if_neg hlt]
    rfl

/-- **No two of the byte strings begin alike.** -/
theorem unique {p : Program ε β α} {bytes bytes' : Bytes} {a a' : α} (h : Delimits E p bytes a)
    (h' : Delimits E p bytes' a') (rem : Bytes → β) (hbegins : bytes <+: bytes') :
    bytes = bytes' ∧ a = a' := by
  obtain ⟨rest, rfl⟩ := hbegins
  have hread := h'.reads rem []
  rw [List.append_nil, h.reads rem rest] at hread
  cases hread
  exact ⟨(List.append_nil bytes).symm, rfl⟩

section Reader
variable {ρ : Type} [Read ρ] {R : ρ → Bytes → Prop} {p : Program ε Unit α} {bytes : Bytes} {a : α}

theorem onReader (h : Delimits E p bytes a) (hR : Delivers R Never) {r : ρ} {rest : Bytes}
    (hr : R r (bytes ++ rest)) : ∃ r', p.onReader r = (.ok a, r') ∧ R r' rest :=
  onReader_eq hR hr (h.reads _ rest)

theorem onReader_cut (h : Delimits E p bytes a) (hR : Delivers R Never) {r : ρ} {short : Bytes}
    (hshort : short <+: bytes) (hne : short ≠ bytes) (hr : R r short) :
    ∃ e, (p.onReader r).1 = .error e ∧ E e := by
  obtain ⟨e, hfailed, he⟩ := h.cut (fun _ => ()) hshort hne
  obtain ⟨r', hrun, -⟩ := onReader_eq hR hr rfl
  exact ⟨e, by rw [hrun]; exact hfailed, he⟩

end Reader

end Delimits

end Delimits

end Protocraft.Stream
