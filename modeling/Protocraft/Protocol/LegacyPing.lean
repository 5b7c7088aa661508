import Protocraft.Primatives.Composite
import Protocraft.Stream.Text

/-! Answers to a legacy ping.

An answer is a byte, a count, and that many code units: the fields with a separator between
them. The count is made when the fields are accepted, by adding up, and the units are written
when the answer is; they agree (`Announced`). Nothing keeps a separator out of a field, and a
client that splits the answer at each of them gets more fields than there are. -/
namespace Protocraft
open Protocraft.Stream
open Utf16 (CodeUnit)
open ToWriter (WrittenAs slices written)

/-- `encode_utf16`. -/
def encodeUtf16 (string : String) : List CodeUnit := Utf16.encode string.toList

def utf16CodeUnits (string : String) : Nat := (encodeUtf16 string).length

section Writer
variable {ω : Type} [Writer ω]

/-- `write_legacy_string!`. -/
def writeLegacyString (turns : Nat) (string : String) : Action (Stop WriteError) ω Unit :=
  @writeItems Primative.u16.Value _ _ _ turns (encodeUtf16 string)

theorem writeLegacyString_eq (turns : Nat) (string : String) :
    (writeLegacyString turns string : Action (Stop WriteError) ω Unit) =
      writeSlices turns ((encodeUtf16 string).map (BigEndian.toBeBytes (n := 2))) := by
  unfold writeLegacyString
  induction encodeUtf16 string with
  | nil => rfl
  | cons unit units ih =>
    rw [List.map_cons, writeSlices_cons, ← ih]
    rfl

end Writer

/-- The units of fields, with a separator between any two. -/
def joined (separator : Char) (fields : List String) : List CodeUnit :=
  [BitVec.ofNat 16 separator.toNat].intercalate (fields.map encodeUtf16)

/-- The slices of an answer. -/
def answer (length : Primative.i16.Value) (units : List CodeUnit) : List Bytes :=
  [0xFF] :: BigEndian.toBeBytes length :: units.map (BigEndian.toBeBytes (n := 2))

/-- An answer on the wire: how many units there are, within the limit, and the units. -/
def Announced (limit : Nat) (units : List CodeUnit) (bytes : Bytes) : Prop :=
  ∃ length : Primative.i16.Value,
    bytes = 0xFF :: (BigEndian.toBeBytes length ++ units.flatMap (BigEndian.toBeBytes (n := 2))) ∧
    length.toNat = units.length ∧ 0 < length.toInt ∧ units.length ≤ limit

/-- What holds of a response whose length is made from its units and checked against a limit. -/
theorem accepted_iff {α : Type} [ToWriter α] {make : Primative.i16.Value → α}
    {units : List CodeUnit} {limit : Nat} {new : Option α}
    (hnew : new = if units.length > limit then none else some (make (BitVec.ofNat 16 units.length)))
    (hwritten : ∀ length, WrittenAs (make length) (answer length units)) (hsome : 0 < units.length)
    (hpositive : limit ≤ 32767) : (new = none ↔ limit < units.length) ∧
      ∀ {r}, new = some r → Announced limit units (written r) ∧ ∃ length, r = make length := by
  by_cases hlong : units.length > limit
  · rw [if_pos hlong] at hnew
    subst hnew
    exact ⟨iff_of_true rfl hlong, fun h => by cases h⟩
  · rw [if_neg hlong] at hnew
    subst hnew
    refine ⟨iff_of_false (Option.some_ne_none _) hlong, fun h => ?_⟩
    cases h
    have hlength : (BitVec.ofNat 16 units.length).toNat = units.length := by
      rw [BitVec.toNat_ofNat]
      omega
    have hsigned : 0 < (BitVec.ofNat 16 units.length).toInt := by
      rw [BitVec.toInt_eq_toNat_of_lt (by omega), hlength]
      omega
    have hbytes := (hwritten (BitVec.ofNat 16 units.length)).written_eq
    refine ⟨⟨_, hbytes.trans ?_, hlength, hsigned, Nat.not_lt.mp hlong⟩, _, rfl⟩
    rw [List.flatMap_def]
    rfl

/-- The bytes tell the units. -/
theorem Announced.unique {limit limit' : Nat} {units units' : List CodeUnit} {bytes : Bytes}
    (h : Announced limit units bytes) (h' : Announced limit' units' bytes) : units = units' := by
  obtain ⟨length, rfl, -⟩ := h
  obtain ⟨length', hsame, -⟩ := h'
  obtain ⟨-, hunits⟩ := List.append_inj (List.cons.inj hsame).2 (by
    rw [BigEndian.length_toBeBytes, BigEndian.length_toBeBytes])
  exact BigEndian.flatMap_toBeBytes_injective (n := 2) (by decide) hunits

/-- The ping response for versions 1.3 and earlier. -/
structure Legacy1_3PingResponse where
  motd : String
  playerCount : String
  maxPlayers : String
  payloadLength : Primative.i16.Value
  deriving DecidableEq

namespace Legacy1_3PingResponse

def new (motd playerCount maxPlayers : String) : Option Legacy1_3PingResponse :=
  let payloadLength := 2 + utf16CodeUnits motd + utf16CodeUnits playerCount + utf16CodeUnits maxPlayers
  if payloadLength > 0x100 then
    none
  else
    some ⟨motd, playerCount, maxPlayers, BitVec.ofNat 16 payloadLength⟩

instance : ToWriter Legacy1_3PingResponse where
  toWriter turns this := do
    Primative.u8.toWriter turns 0xFF
    Primative.i16.toWriter turns this.payloadLength
    writeLegacyString turns this.motd
    writeLegacyString turns "§"
    writeLegacyString turns this.playerCount
    writeLegacyString turns "§"
    writeLegacyString turns this.maxPlayers

def fields (r : Legacy1_3PingResponse) : List String := [r.motd, r.playerCount, r.maxPlayers]

/-- The code units of these fields. -/
def units (fields : List String) : List CodeUnit := joined '§' fields

theorem writtenAs (r : Legacy1_3PingResponse) :
    WrittenAs r (answer r.payloadLength (units r.fields)) where
  each turns := by
    have hseparator : [BitVec.ofNat 16 '§'.toNat] = encodeUtf16 "§" := by decide
    simp only [ToWriter.toWriter, answer, units, joined, fields, hseparator, List.map_cons, List.map_nil,
      List.intercalate_cons_cons, List.intercalate_singleton, List.map_append, writeSlices_cons,
      writeSlices_append, writeLegacyString_eq, List.append_assoc]
    rfl

theorem length_units (motd playerCount maxPlayers : String) :
    (units [motd, playerCount, maxPlayers]).length =
    2 + utf16CodeUnits motd + utf16CodeUnits playerCount + utf16CodeUnits maxPlayers := by
  simp only [units, joined, List.map_cons, List.map_nil, List.intercalate_cons_cons,
    List.intercalate_singleton, List.length_append, List.length_singleton, utf16CodeUnits]
  omega

theorem accepted (motd playerCount maxPlayers : String) :
    (new motd playerCount maxPlayers = none ↔ 256 < (units [motd, playerCount, maxPlayers]).length) ∧
    ∀ {r}, new motd playerCount maxPlayers = some r →
      Announced 256 (units [motd, playerCount, maxPlayers]) (written r) ∧
      ∃ length, r = ⟨motd, playerCount, maxPlayers, length⟩ := by
  have hlength := length_units motd playerCount maxPlayers
  apply accepted_iff _ (fun length => writtenAs ⟨motd, playerCount, maxPlayers, length⟩)
    (by rw [hlength]; omega) (by decide)
  rw [hlength]
  rfl

end Legacy1_3PingResponse

/-- The ping response for versions 1.4 to 1.6. -/
structure Legacy1_6PingResponse where
  serverVersion : String
  motd : String
  playerCount : String
  maxPlayers : String
  payloadLength : Primative.i16.Value
  deriving DecidableEq

namespace Legacy1_6PingResponse

def new (serverVersion motd playerCount maxPlayers : String) : Option Legacy1_6PingResponse :=
  let payloadLength :=
    10 + (utf16CodeUnits serverVersion + utf16CodeUnits motd + utf16CodeUnits playerCount +
    utf16CodeUnits maxPlayers)
  if payloadLength > 32767 then
    none
  else
    some ⟨serverVersion, motd, playerCount, maxPlayers, BitVec.ofNat 16 payloadLength⟩

instance : ToWriter Legacy1_6PingResponse where
  toWriter turns this := do
    Primative.u8.toWriter turns 0xFF
    Primative.i16.toWriter turns this.payloadLength
    writeLegacyString turns "§1"
    Primative.u16.toWriter turns 0
    writeLegacyString turns "127"
    Primative.u16.toWriter turns 0
    writeLegacyString turns this.serverVersion
    Primative.u16.toWriter turns 0
    writeLegacyString turns this.motd
    Primative.u16.toWriter turns 0
    writeLegacyString turns this.playerCount
    Primative.u16.toWriter turns 0
    writeLegacyString turns this.maxPlayers

def fields (r : Legacy1_6PingResponse) : List String :=
  [r.serverVersion, r.motd, r.playerCount, r.maxPlayers]

/-- The code units of these fields, and of the two that are always the same. -/
def units (fields : List String) : List CodeUnit := joined '\x00' ("§1" :: "127" :: fields)

theorem writtenAs (r : Legacy1_6PingResponse) :
    WrittenAs r (answer r.payloadLength (units r.fields)) where
  each turns := by
    simp only [ToWriter.toWriter, answer, units, joined, fields, List.map_cons, List.map_nil,
      List.intercalate_cons_cons, List.intercalate_singleton, List.map_append, writeSlices_cons,
      writeSlices_append, writeSlices_nil, bind_pure_unit, writeLegacyString_eq, List.append_assoc]
    rfl

theorem length_units (serverVersion motd playerCount maxPlayers : String) :
    (units [serverVersion, motd, playerCount, maxPlayers]).length =
      10 + (utf16CodeUnits serverVersion + utf16CodeUnits motd + utf16CodeUnits playerCount +
        utf16CodeUnits maxPlayers) := by
  have hfirst : (encodeUtf16 "§1").length = 2 := by decide
  have hsecond : (encodeUtf16 "127").length = 3 := by decide
  simp only [units, joined, List.map_cons, List.map_nil, List.intercalate_cons_cons,
    List.intercalate_singleton,
    List.length_append, List.length_singleton, hfirst, hsecond, utf16CodeUnits]
  omega

theorem accepted (serverVersion motd playerCount maxPlayers : String) :
    (new serverVersion motd playerCount maxPlayers = none ↔
      32767 < (units [serverVersion, motd, playerCount, maxPlayers]).length) ∧
    ∀ {r}, new serverVersion motd playerCount maxPlayers = some r →
      Announced 32767 (units [serverVersion, motd, playerCount, maxPlayers]) (written r) ∧
      ∃ length, r = ⟨serverVersion, motd, playerCount, maxPlayers, length⟩ := by
  have hlength := length_units serverVersion motd playerCount maxPlayers
  apply accepted_iff _ (fun length => writtenAs ⟨serverVersion, motd, playerCount, maxPlayers, length⟩)
    (by rw [hlength]; omega) (Nat.le_refl _)
  rw [hlength]
  rfl

end Legacy1_6PingResponse

/-- **The count is that of the units that follow**, for every response that is accepted; and one
is refused just when there would be too many. -/
theorem legacy_ping_announced :
    (∀ motd playerCount maxPlayers,
      (Legacy1_3PingResponse.new motd playerCount maxPlayers = none ↔
        256 < (Legacy1_3PingResponse.units [motd, playerCount, maxPlayers]).length) ∧
      ∀ r, Legacy1_3PingResponse.new motd playerCount maxPlayers = some r → WrittenAs r (slices r) ∧
        Announced 256 (Legacy1_3PingResponse.units [motd, playerCount, maxPlayers]) (written r)) ∧
    ∀ serverVersion motd playerCount maxPlayers,
      (Legacy1_6PingResponse.new serverVersion motd playerCount maxPlayers = none ↔
        32767 < (Legacy1_6PingResponse.units [serverVersion, motd, playerCount, maxPlayers]).length) ∧
      ∀ r, Legacy1_6PingResponse.new serverVersion motd playerCount maxPlayers = some r →
        WrittenAs r (slices r) ∧
        Announced 32767 (Legacy1_6PingResponse.units [serverVersion, motd, playerCount, maxPlayers])
          (written r) := by
  constructor
  · intro motd playerCount maxPlayers
    obtain ⟨hnone, hsome⟩ := Legacy1_3PingResponse.accepted motd playerCount maxPlayers
    exact ⟨hnone, fun r h => ⟨(Sliced.of Legacy1_3PingResponse.writtenAs).writes r, (hsome h).1⟩⟩
  · intro serverVersion motd playerCount maxPlayers
    obtain ⟨hnone, hsome⟩ := Legacy1_6PingResponse.accepted serverVersion motd playerCount maxPlayers
    exact ⟨hnone, fun r h => ⟨(Sliced.of Legacy1_6PingResponse.writtenAs).writes r, (hsome h).1⟩⟩

/-- A character of two units. -/
theorem legacy_ping_announced_clef : ∃ r, Legacy1_3PingResponse.new "𝄞" "0" "20" = some r ∧
    Announced 256 [0xD834, 0xDD1E, 0xA7, 0x30, 0xA7, 0x32, 0x30] (written r) := by
  have hunits : Legacy1_3PingResponse.units ["𝄞", "0", "20"] =
      [0xD834, 0xDD1E, 0xA7, 0x30, 0xA7, 0x32, 0x30] := by
    decide
  obtain ⟨-, haccepted⟩ := legacy_ping_announced.1 "𝄞" "0" "20"
  rw [hunits] at haccepted
  exact ⟨_, rfl, (haccepted _ rfl).2⟩

/-! ### Telling the fields apart -/

def separators (separator : Char) (field : String) : Nat := field.toList.count separator

/-- The pieces between the separators. -/
def split (separator : Char) (units : List CodeUnit) : List (List CodeUnit) :=
  units.splitOn (BitVec.ofNat 16 separator.toNat)

section Joined
variable {separator : Char} (hplane : separator.toNat < 0x10000)
include hplane

theorem joined_inj {fields fields' : List String}
    (hcount : fields.map (separators separator) = fields'.map (separators separator))
    (h : joined separator fields = joined separator fields') : fields = fields' := by
  have hcounts : ∀ fields : List String,
      (fields.map encodeUtf16).map (List.count (BitVec.ofNat 16 separator.toNat)) =
      fields.map (separators separator) := by
    intro fields
    rw [List.map_map]
    exact List.map_congr_left fun field _ => Utf16.count_encode hplane field.toList
  have hunits := intercalate_inj (by rw [hcounts, hcounts, hcount]) h
  apply List.map_injective_iff.mpr _ hunits
  intro field field' hfield
  exact String.toList_inj.mp (Utf16.encode_injective hfield)

/-- From the same bytes, behind fields that are the same, the fields are the same if they contain as
many separators. -/
theorem Announced.fields_eq_iff {limit : Nat} {bytes : Bytes} (same : List String)
    {fields fields' : List String} (h : Announced limit (joined separator (same ++ fields)) bytes)
    (h' : Announced limit (joined separator (same ++ fields')) bytes) :
    fields = fields' ↔ fields.map (separators separator) = fields'.map (separators separator) := by
  constructor
  · intro hfields
    rw [hfields]
  · intro hcount
    have hcounts : (same ++ fields).map (separators separator) =
        (same ++ fields').map (separators separator) := by
      rw [List.map_append, List.map_append, hcount]
    exact List.append_cancel_left (joined_inj hplane hcounts (h.unique h'))

omit hplane in
theorem split_joined {fields : List String} (hfields : fields ≠ []) :
    split separator (joined separator fields) = fields.flatMap fun field =>
      split separator (encodeUtf16 field) := by
  rw [joined, split, splitOn_intercalate_flatMap _ (by simpa using hfields), List.flatMap_map]
  rfl

theorem split_joined_iff {fields : List String} (hfields : fields ≠ []) :
    split separator (joined separator fields) = fields.map encodeUtf16 ↔
      ∀ field ∈ fields, separator ∉ field.toList := by
  rw [joined, split, splitOn_intercalate_iff _ (by simpa using hfields), List.forall_mem_map]
  simp only [encodeUtf16, Utf16.mem_encode hplane]

end Joined

/-- **Responses on the wire tell their fields apart by the separators in them.** From the same
bytes the fields are the same if each contains as many as the other's; and a client that splits
what it gets has the pieces of each field, which are the fields if none contains any. -/
theorem legacy_ping_fields_iff :
    (∀ {motd playerCount maxPlayers motd' playerCount' maxPlayers' : String}
      {r r' : Legacy1_3PingResponse},
      Legacy1_3PingResponse.new motd playerCount maxPlayers = some r →
      Legacy1_3PingResponse.new motd' playerCount' maxPlayers' = some r' → written r = written r' →
      (r.fields = r'.fields ↔ r.fields.map (separators '§') = r'.fields.map (separators '§'))) ∧
    (∀ {motd playerCount maxPlayers : String} {r : Legacy1_3PingResponse},
      Legacy1_3PingResponse.new motd playerCount maxPlayers = some r →
      r.fields = [motd, playerCount, maxPlayers] ∧ ∃ units, Announced 256 units (written r) ∧
        split '§' units = r.fields.flatMap (fun field => split '§' (encodeUtf16 field)) ∧
        (split '§' units = r.fields.map encodeUtf16 ↔ ∀ field ∈ r.fields, '§' ∉ field.toList)) ∧
    (∀ {serverVersion motd playerCount maxPlayers serverVersion' motd' playerCount' maxPlayers' : String}
      {r r' : Legacy1_6PingResponse},
      Legacy1_6PingResponse.new serverVersion motd playerCount maxPlayers = some r →
      Legacy1_6PingResponse.new serverVersion' motd' playerCount' maxPlayers' = some r' →
      written r = written r' →
      (r.fields = r'.fields ↔ r.fields.map (separators '\x00') = r'.fields.map (separators '\x00'))) ∧
    (∀ {serverVersion motd playerCount maxPlayers : String} {r : Legacy1_6PingResponse},
      Legacy1_6PingResponse.new serverVersion motd playerCount maxPlayers = some r →
      r.fields = [serverVersion, motd, playerCount, maxPlayers] ∧
        ∃ units, Announced 32767 units (written r) ∧
        split '\x00' units =
          ("§1" :: "127" :: r.fields).flatMap (fun field => split '\x00' (encodeUtf16 field)) ∧
        (split '\x00' units = ("§1" :: "127" :: r.fields).map encodeUtf16 ↔
          ∀ field ∈ r.fields, '\x00' ∉ field.toList)) := by
  refine ⟨?_, ?_, ?_, ?_⟩
  · intro motd playerCount maxPlayers motd' playerCount' maxPlayers' r r' h h' hsame
    obtain ⟨hannounced, length, rfl⟩ := (Legacy1_3PingResponse.accepted ..).2 h
    obtain ⟨hannounced', length', rfl⟩ := (Legacy1_3PingResponse.accepted ..).2 h'
    rw [hsame] at hannounced
    exact Announced.fields_eq_iff (by decide) [] hannounced hannounced'
  · intro motd playerCount maxPlayers r h
    obtain ⟨hannounced, length, rfl⟩ := (Legacy1_3PingResponse.accepted ..).2 h
    exact ⟨rfl, _, hannounced, split_joined (List.cons_ne_nil _ _),
      split_joined_iff (by decide) (List.cons_ne_nil _ _)⟩
  · intro serverVersion motd playerCount maxPlayers serverVersion' motd' playerCount' maxPlayers'
      r r' h h' hsame
    obtain ⟨hannounced, length, rfl⟩ := (Legacy1_6PingResponse.accepted ..).2 h
    obtain ⟨hannounced', length', rfl⟩ := (Legacy1_6PingResponse.accepted ..).2 h'
    rw [hsame] at hannounced
    exact Announced.fields_eq_iff (by decide) ["§1", "127"] hannounced hannounced'
  · intro serverVersion motd playerCount maxPlayers r h
    obtain ⟨hannounced, length, rfl⟩ := (Legacy1_6PingResponse.accepted ..).2 h
    have hsame : ∀ fields : List String, (∀ field ∈ "§1" :: "127" :: fields, '\x00' ∉ field.toList) ↔
        ∀ field ∈ fields, '\x00' ∉ field.toList := by
      intro fields
      simp
    exact ⟨rfl, _, hannounced, split_joined (List.cons_ne_nil _ _),
      (split_joined_iff (by decide) (List.cons_ne_nil _ _)).trans (hsame _)⟩

/-- Fields without separators, and two responses with the same bytes, of which one has a separator
where the other has none. -/
theorem legacy_ping_fields_plain :
    (∃ r units, Legacy1_3PingResponse.new "Hi" "1" "20" = some r ∧ Announced 256 units (written r) ∧
      split '§' units = ["Hi", "1", "20"].map encodeUtf16) ∧
    (∃ r r', Legacy1_3PingResponse.new "a§b" "c" "d" = some r ∧
      Legacy1_3PingResponse.new "a" "b§c" "d" = some r' ∧ written r = written r' ∧
        r.fields ≠ r'.fields) ∧
    (∃ r units, Legacy1_6PingResponse.new "1.6.4" "Hi" "1" "20" = some r ∧
      Announced 32767 units (written r) ∧
      split '\x00' units = ["§1", "127", "1.6.4", "Hi", "1", "20"].map encodeUtf16) ∧
    ∃ r r', Legacy1_6PingResponse.new "1.6.4" "a\x00b" "c" "d" = some r ∧
      Legacy1_6PingResponse.new "1.6.4" "a" "b\x00c" "d" = some r' ∧ written r = written r' ∧
        r.fields ≠ r'.fields := by
  obtain ⟨hsame, hearly, hsame', hlate⟩ := legacy_ping_fields_iff
  refine ⟨?_, ?_, ?_, ?_⟩
  · obtain ⟨-, units, hannounced, -, hsplit⟩ := @hearly "Hi" "1" "20" _ rfl
    exact ⟨_, units, rfl, hannounced, hsplit.mpr (by decide)⟩
  · have hleft : Legacy1_3PingResponse.new "a§b" "c" "d" = some ⟨"a§b", "c", "d", 7⟩ := rfl
    have hright : Legacy1_3PingResponse.new "a" "b§c" "d" = some ⟨"a", "b§c", "d", 7⟩ := rfl
    refine ⟨_, _, hleft, hright, by decide +kernel, fun hfields => ?_⟩
    exact absurd ((hsame hleft hright (by decide +kernel)).mp hfields) (by decide)
  · obtain ⟨-, units, hannounced, -, hsplit⟩ := @hlate "1.6.4" "Hi" "1" "20" _ rfl
    exact ⟨_, units, rfl, hannounced, hsplit.mpr (by decide)⟩
  · have hleft : Legacy1_6PingResponse.new "1.6.4" "a\x00b" "c" "d" =
        some ⟨"1.6.4", "a\x00b", "c", "d", 20⟩ := rfl
    have hright : Legacy1_6PingResponse.new "1.6.4" "a" "b\x00c" "d" =
        some ⟨"1.6.4", "a", "b\x00c", "d", 20⟩ := rfl
    refine ⟨_, _, hleft, hright, by decide +kernel, fun hfields => ?_⟩
    exact absurd ((hsame' hleft hright (by decide +kernel)).mp hfields) (by decide)

/-- A separator within a field, and the same one in the next. -/
theorem legacy_ping_fields_shifted :
    (∃ r r', Legacy1_3PingResponse.new "a§b" "c" "d" = some r ∧
      Legacy1_3PingResponse.new "a" "b§c" "d" = some r' ∧ written r = written r' ∧ r.motd ≠ r'.motd) ∧
    ∃ r r', Legacy1_6PingResponse.new "1.6.4" "a\x00b" "c" "d" = some r ∧
      Legacy1_6PingResponse.new "1.6.4" "a" "b\x00c" "d" = some r' ∧ written r = written r' ∧
        r.motd ≠ r'.motd :=
  ⟨⟨_, _, rfl, rfl, by decide +kernel, by decide⟩, ⟨_, _, rfl, rfl, by decide +kernel, by decide⟩⟩

end Protocraft
