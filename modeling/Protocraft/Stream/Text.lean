import Protocraft.Stream.Io

/-! Text in code units, and fields between separators.

UTF-16 takes one unit for a character of the basic plane, and two surrogates, which stand for
no character of that plane, for one above it. So a character of the basic plane is in the text
as often as its unit is in the encoding (`Utf16.count_encode`), and the encoding can be undone
(`Utf16.encode_injective`). Fields joined by a separator fall apart at every separator, those
within the fields as well (`splitOn_intercalate_flatMap`). -/
namespace Protocraft.Stream

/-! ### UTF-16 -/

namespace Utf16

abbrev CodeUnit := BitVec 16

def ofChar (c : Char) : List CodeUnit :=
  let code := c.toNat
  if code < 0x10000 then
    [BitVec.ofNat 16 code]
  else
    let code := code - 0x10000
    [BitVec.ofNat 16 (0xD800 + code / 0x400), BitVec.ofNat 16 (0xDC00 + code % 0x400)]

def encode (text : List Char) : List CodeUnit := text.flatMap ofChar

/-- No character is a surrogate. -/
theorem char_range (c : Char) : c.toNat < 0xD800 ∨ 0xDFFF < c.toNat ∧ c.toNat < 0x110000 := c.valid

theorem ofNat_inj {m n : Nat} (hm : m < 0x10000) (hn : n < 0x10000)
    (h : BitVec.ofNat 16 m = BitVec.ofNat 16 n) : m = n := by
  have hnat := congrArg BitVec.toNat h
  simp only [BitVec.toNat_ofNat] at hnat
  omega

/-- The units of a character tell where they end. -/
theorem ofChar_append_inj {c d : Char} {units units' : List CodeUnit}
    (h : ofChar c ++ units = ofChar d ++ units') : c = d ∧ units = units' := by
  have hc := char_range c
  have hd := char_range d
  unfold ofChar at h
  dsimp only at h
  by_cases hlow : c.toNat < 0x10000 <;> by_cases hlow' : d.toNat < 0x10000
  · rw [if_pos hlow, if_pos hlow'] at h
    obtain ⟨hunit, hrest⟩ := List.cons.inj h
    exact ⟨Char.toNat_inj.mp (ofNat_inj hlow hlow' hunit), hrest⟩
  · rw [if_pos hlow, if_neg hlow'] at h
    have hunit := ofNat_inj hlow (by omega) (List.cons.inj h).1
    omega
  · rw [if_neg hlow, if_pos hlow'] at h
    have hunit := ofNat_inj (by omega) hlow' (List.cons.inj h).1
    omega
  · rw [if_neg hlow, if_neg hlow'] at h
    obtain ⟨hhigh, hrest⟩ := List.cons.inj h
    obtain ⟨hsecond, hrest⟩ := List.cons.inj hrest
    have hquotient := ofNat_inj (by omega) (by omega) hhigh
    have hremainder := ofNat_inj (by omega) (by omega) hsecond
    exact ⟨Char.toNat_inj.mp (by omega), hrest⟩

theorem encode_injective {text text' : List Char} (h : encode text = encode text') : text = text' := by
  have hne : ∀ c, ofChar c ≠ [] := by
    intro c
    unfold ofChar
    dsimp only
    split <;> simp
  induction text generalizing text' with
  | nil =>
    cases text' with
    | nil => rfl
    | cons d text' => exact absurd (List.append_eq_nil_iff.mp h.symm).1 (hne d)
  | cons c text ih =>
    cases text' with
    | nil => exact absurd (List.append_eq_nil_iff.mp h).1 (hne c)
    | cons d text' =>
      obtain ⟨rfl, hrest⟩ := ofChar_append_inj h
      rw [ih hrest]

theorem count_ofChar {c : Char} (hc : c.toNat < 0x10000) (d : Char) :
    (ofChar d).count (BitVec.ofNat 16 c.toNat) = if d = c then 1 else 0 := by
  have hrange := char_range c
  have hd := char_range d
  unfold ofChar
  dsimp only
  by_cases hlow : d.toNat < 0x10000
  · rw [if_pos hlow, List.count_singleton]
    by_cases hsame : d = c
    · simp [hsame]
    · have hunit : BitVec.ofNat 16 d.toNat ≠ BitVec.ofNat 16 c.toNat :=
        fun h => hsame (Char.toNat_inj.mp (ofNat_inj hlow hc h))
      simp [hsame, hunit]
  · have hsame : d ≠ c := by
      intro h
      rw [h] at hlow
      exact hlow hc
    rw [if_neg hlow, if_neg hsame, List.count_eq_zero]
    intro hmem
    simp only [List.mem_cons, List.not_mem_nil, or_false] at hmem
    obtain hunit | hunit := hmem
    · have := ofNat_inj hc (by omega) hunit
      omega
    · have := ofNat_inj hc (by omega) hunit
      omega

/-- A character of the basic plane is in the encoding as often as in the text. -/
theorem count_encode {c : Char} (hc : c.toNat < 0x10000) (text : List Char) :
    (encode text).count (BitVec.ofNat 16 c.toNat) = text.count c := by
  induction text with
  | nil => rfl
  | cons d text ih =>
    rw [encode, List.flatMap_cons, List.count_append, count_ofChar hc, ← encode, ih,
      List.count_cons, Nat.add_comm]
    simp

theorem mem_encode {c : Char} (hc : c.toNat < 0x10000) (text : List Char) :
    BitVec.ofNat 16 c.toNat ∈ encode text ↔ c ∈ text := by
  rw [← List.count_pos_iff, count_encode hc, List.count_pos_iff]

end Utf16

/-! ### Separators -/

section Separated
variable {α : Type} [DecidableEq α]

/-- In front of a separator as many of them decide where it is. -/
theorem append_separator_inj {sep : α} {field field' rest rest' : List α}
    (h : field ++ sep :: rest = field' ++ sep :: rest') (hcount : field.count sep = field'.count sep) :
    field = field' ∧ rest = rest' := by
  obtain ⟨between, rfl, hrest⟩ | ⟨between, rfl, hrest⟩ := List.append_eq_append_iff.mp h
  · cases between with
    | nil => simpa using hrest
    | cons b between =>
      obtain ⟨rfl, -⟩ := List.cons.inj hrest
      simp [List.count_append] at hcount
  · cases between with
    | nil => simpa using hrest.symm
    | cons b between =>
      obtain ⟨rfl, -⟩ := List.cons.inj hrest
      simp [List.count_append] at hcount

/-- **Joined fields are told apart by how many separators each contains.** -/
theorem intercalate_inj {sep : α} {fields fields' : List (List α)}
    (hcount : fields.map (List.count sep) = fields'.map (List.count sep))
    (h : [sep].intercalate fields = [sep].intercalate fields') : fields = fields' := by
  induction fields generalizing fields' with
  | nil =>
    cases fields' with
    | nil => rfl
    | cons _ _ => cases hcount
  | cons field fields ih =>
    cases fields' with
    | nil => cases hcount
    | cons field' fields' =>
      obtain ⟨hfirst, hmore⟩ := List.cons.inj hcount
      by_cases hlast : fields = []
      · obtain rfl : fields' = [] := by simpa [hlast] using hmore.symm
        subst hlast
        simpa using h
      · have hlast' : fields' ≠ [] := by
          intro hnil
          rw [hnil] at hmore
          exact hlast (by simpa using hmore)
        rw [List.intercalate_cons_of_ne_nil hlast, List.intercalate_cons_of_ne_nil hlast',
          List.append_assoc, List.append_assoc] at h
        obtain ⟨rfl, hrest⟩ := append_separator_inj h hfirst
        rw [ih hmore hrest]

/-- Joined fields fall apart at every separator, also at those they contain. -/
theorem splitOn_intercalate_flatMap (sep : α) {fields : List (List α)} (hfields : fields ≠ []) :
    ([sep].intercalate fields).splitOn sep = fields.flatMap (List.splitOn sep) := by
  induction fields with
  | nil => exact absurd rfl hfields
  | cons field fields ih =>
    by_cases hlast : fields = []
    · simp [hlast]
    · rw [List.intercalate_cons_of_ne_nil hlast, List.append_assoc, List.singleton_append,
        List.splitOn_append_cons_self, ih hlast, List.flatMap_cons]

theorem not_mem_of_splitOn {sep : α} {text piece : List α} (h : piece ∈ text.splitOn sep) :
    sep ∉ piece := by
  induction text generalizing piece with
  | nil =>
    obtain rfl : piece = [] := by simpa using h
    exact List.not_mem_nil
  | cons a text ih =>
    rw [List.splitOn_cons_eq_if_modifyHead] at h
    split at h
    next =>
      obtain rfl | hrest := List.mem_cons.mp h
      · exact List.not_mem_nil
      · exact ih hrest
    next ha =>
      cases hsplit : text.splitOn sep with
      | nil => exact absurd hsplit (List.splitOn_ne_nil sep text)
      | cons first rest =>
        rw [hsplit] at h ih
        obtain rfl | hrest := List.mem_cons.mp h
        · simp only [beq_iff_eq] at ha
          simp [ih List.mem_cons_self, Ne.symm ha]
        · exact ih (List.mem_cons_of_mem first hrest)

/-- **Splitting gives the fields back just when no field contains a separator.** -/
theorem splitOn_intercalate_iff (sep : α) {fields : List (List α)} (hfields : fields ≠ []) :
    ([sep].intercalate fields).splitOn sep = fields ↔ ∀ field ∈ fields, sep ∉ field := by
  constructor
  · intro h field hfield
    rw [← h] at hfield
    exact not_mem_of_splitOn hfield
  · intro h
    exact List.splitOn_intercalate sep h hfields

end Separated

end Protocraft.Stream
