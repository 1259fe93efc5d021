import DataBlock.Proofs.Tag.RoundTrip
import DataBlock.Tag.Builder
import Mathlib.Data.List.Induction
/-!
# Tags built from settings

A builder keeps the last argument given for each field.  From these it makes a
tag exactly where the fields can be made one and the bit offset is given for
`BOOL` alone; a field that was never given is not filled in.  The address it
writes is that of the tag, and is read back as the tag.
-/

namespace DataBlock.Tag

def Setting.block? : Setting → Option UInt16
  | .block number => some number
  | _ => none

def Setting.byteOffset? : Setting → Option UInt32
  | .byteOffset offset => some offset
  | _ => none

def Setting.bitOffset? : Setting → Option UInt8
  | .bitOffset offset => some offset
  | _ => none

def Setting.type? : Setting → Option PlcType
  | .type given => some given
  | _ => none

def Setting.length? : Setting → Option UInt16
  | .length given => some given
  | _ => none

/-- The last argument that settings give for a field. -/
def last? {α : Type} (field? : Setting → Option α) (settings : List Setting) : Option α :=
  (settings.filterMap field?).getLast?

theorem last?_concat {α : Type} (field? : Setting → Option α) (settings : List Setting)
    (setting : Setting) :
    last? field? (settings ++ [setting]) = (field? setting).or (last? field? settings) := by
  cases h : field? setting <;> simp [last?, h]

namespace Builder

def ofSettings (settings : List Setting) : Builder :=
  settings.foldl set empty

/-- A setting changes the field it is for, and no other. -/
theorem set_eq (b : Builder) (setting : Setting) :
    b.set setting =
      ⟨setting.block?.or b.block, setting.byteOffset?.or b.byteOffset,
        setting.bitOffset?.or b.bitOffset, setting.type?.or b.type,
        setting.length?.or b.length⟩ := by
  cases setting <;> rfl

theorem ofSettings_eq (settings : List Setting) :
    ofSettings settings =
      ⟨last? Setting.block? settings, last? Setting.byteOffset? settings,
        last? Setting.bitOffset? settings, last? Setting.type? settings,
        last? Setting.length? settings⟩ := by
  induction settings using List.reverseRecOn with
  | nil => rfl
  | append_singleton settings setting ih =>
      rw [ofSettings, List.foldl_append, ← ofSettings, ih, List.foldl_cons, List.foldl_nil, set_eq]
      simp only [last?_concat]

/-! ## The tag of a builder -/

theorem fields_eq_ok_iff {b : Builder} {f : Fields} :
    b.fields = .ok f ↔
      ∃ block byteOffset type,
        b.block = some block ∧ b.byteOffset = some byteOffset ∧ b.type = some type ∧
        (b.bitOffset.isSome = true ↔ type = .bool) ∧
        f = ⟨block, byteOffset, b.bitOffset.getD 0, type, b.length⟩ := by
  rcases b with ⟨_ | block, byteOffset, bitOffset, type, length⟩
  · simp [fields]
  rcases byteOffset with _ | byteOffset
  · simp [fields]
  rcases type with _ | type
  · simp [fields]
  rcases bitOffset with _ | bitOffset <;> by_cases hbool : type = .bool <;>
    simp [fields, hbool, eq_comm]

theorem tag_eq_ok_iff {b : Builder} {t : Tag} :
    b.tag = .ok t ↔ ∃ f, b.fields = .ok f ∧ make f = .ok t := by
  simp only [tag, bind_eq_ok_iff, make_eq_ok_iff, ← ofFields_eq_ok_iff]
  constructor
  · rintro ⟨f, hfields, htag⟩
    refine ⟨f, hfields, ?_⟩
    cases hmade : ofFields f with
    | error fault => simp [hmade, Except.mapError] at htag
    | ok made => simpa [hmade, Except.mapError] using htag
  · rintro ⟨f, hfields, hmade⟩
    exact ⟨f, hfields, by rw [hmade]; rfl⟩

theorem address_eq_ok_iff {b : Builder} {text : String} :
    b.address = .ok text ↔ ∃ t, b.tag = .ok t ∧ t.address = text := by
  simp only [address, bind_eq_ok_iff, pure, Except.pure, Except.ok.injEq]

/-- Of all settings given to a builder the last one for each field counts.  A
builder makes a tag exactly if a data block, a byte offset and a type are set, a
bit offset is set for `BOOL` alone, and the fields can be made this tag.  It
writes an address exactly if it makes a tag, and the address is that of the tag
and is read back as the tag. -/
theorem ofSettings_builds (settings : List Setting) :
    ofSettings settings =
      ⟨last? Setting.block? settings, last? Setting.byteOffset? settings,
        last? Setting.bitOffset? settings, last? Setting.type? settings,
        last? Setting.length? settings⟩ ∧
    (∀ t, (ofSettings settings).tag = .ok t ↔
      ∃ block byteOffset type,
        last? Setting.block? settings = some block ∧
        last? Setting.byteOffset? settings = some byteOffset ∧
        last? Setting.type? settings = some type ∧
        ((last? Setting.bitOffset? settings).isSome = true ↔ type = .bool) ∧
        make ⟨block, byteOffset, (last? Setting.bitOffset? settings).getD 0, type,
          last? Setting.length? settings⟩ = .ok t) ∧
    (∀ text, (ofSettings settings).address = .ok text ↔
      ∃ t, (ofSettings settings).tag = .ok t ∧ t.address = text) ∧
    ∀ text, (ofSettings settings).address = .ok text →
      ∃ t, (ofSettings settings).tag = .ok t ∧ parse text = .ok t := by
  refine ⟨ofSettings_eq settings, ?_, fun text => address_eq_ok_iff, ?_⟩
  · intro t
    rw [tag_eq_ok_iff, ofSettings_eq]
    constructor
    · rintro ⟨f, hfields, hmade⟩
      obtain ⟨block, byteOffset, type, hblock, hbyte, htype, hbit, rfl⟩ := fields_eq_ok_iff.1 hfields
      exact ⟨block, byteOffset, type, hblock, hbyte, htype, hbit, hmade⟩
    · rintro ⟨block, byteOffset, type, hblock, hbyte, htype, hbit, hmade⟩
      exact ⟨_, fields_eq_ok_iff.2 ⟨block, byteOffset, type, hblock, hbyte, htype, hbit, rfl⟩, hmade⟩
  · intro text htext
    obtain ⟨t, ht, rfl⟩ := address_eq_ok_iff.1 htext
    exact ⟨t, ht, parse_address t⟩

def replaced : List Setting :=
  [.bitOffset 9, .type .int, .block 4, .byteOffset 0, .type .bool, .bitOffset 3]

theorem ofSettings_replaced :
    (∃ t, make ⟨4, 0, 3, .bool, none⟩ = .ok t ∧ (ofSettings replaced).tag = .ok t) ∧
    (ofSettings replaced).address = .ok "%DB4:0.3:BOOL" ∧
    ∃ t, (ofSettings replaced).tag = .ok t ∧ parse "%DB4:0.3:BOOL" = .ok t := by
  have haddress : (ofSettings replaced).address = .ok "%DB4:0.3:BOOL" := by
    decide
  obtain ⟨-, htag, -, hparse⟩ := ofSettings_builds replaced
  refine ⟨?_, haddress, hparse _ haddress⟩
  refine ⟨_, rfl, (htag _).2 ?_⟩
  exact ⟨4, 0, .bool, rfl, rfl, rfl, by decide, rfl⟩

end Builder

end DataBlock.Tag
