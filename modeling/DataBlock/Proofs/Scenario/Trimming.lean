import DataBlock.Proofs.Expectation.Pairs
import DataBlock.Proofs.Scenario.History
/-!
# Expectations without the blanks around them

A scenario reads what is expected without the blanks around it.  The key of an
expectation has no blanks, so the blanks in front change nothing; those at the
end belong to the value.  Most values are read without blanks at their ends
anyway, but a text is all of its value and a character the first of it.
-/

namespace DataBlock

namespace Expectation

/-- Blanks at the end of a value are not part of what is expected: a text has none
there, a character is not blank altogether, and any other value is read without
them. -/
def Form.TrimSafe (form : Form) (value : List Char) : Prop :=
  match form with
  | .text => Text.trimEnd value = value
  | .char => Text.trimEnd value ≠ []
  | _ => True

/-! ## Values without blanks at their ends -/

theorem read_trimEnd {form : Form} (htext : form ≠ .text) (hchar : form ≠ .char)
    (value : List Char) : form.read (Text.trimEnd value) = form.read value := by
  cases form with
  | text | char => contradiction
  | time => simp only [Form.read, Time.Duration.ofText, Text.trim_trimEnd]
  | _ => simp only [Form.read, Text.trim_trimEnd]

theorem read_trimEnd_eq_ok_iff {form : Form} {value : List Char} {e : Expectation}
    (h : form.read value = .ok e) :
    form.read (Text.trimEnd value) = .ok e ↔ form.TrimSafe value := by
  cases form with
  | text =>
      rw [← h, Form.read, Form.read, Except.ok.injEq, Expectation.text.injEq, String.ofList_inj]
      rfl
  | char =>
      constructor
      · intro hread hempty
        rw [hempty] at hread
        cases hread
      · intro hkept
        rw [Form.read, Text.head?_trimEnd hkept]
        exact h
  | _ => exact iff_of_true (by rw [read_trimEnd (by simp) (by simp), h]) trivial

/-- What is read as a text is a text or the first character of a value. -/
theorem eq_of_read_eq_text {form : Form} {value : List Char} {text : String}
    (h : form.read value = .ok (.text text)) :
    form = .text ∧ value = text.toList ∨ form = .char ∧ text.length = 1 := by
  cases form with
  | text =>
      left
      rw [Form.read, Except.ok.injEq, Expectation.text.injEq] at h
      rw [← h, String.toList_ofList]
      exact ⟨rfl, rfl⟩
  | char =>
      right
      rw [Form.read, orMalformed_eq_ok_iff, Option.map_eq_some_iff] at h
      obtain ⟨c, -, hc⟩ := h
      rw [← Expectation.text.inj hc]
      exact ⟨rfl, by simp⟩
  | _ => simp [Form.read, orMalformed_eq_ok_iff, map_eq_ok_iff, Option.bind_eq_some_iff] at h

/-- A text that does not end in a blank is the whole of a value.  A single character
may be a blank, and needs more behind it. -/
theorem exists_trimSafe_of_text {text : String}
    (h : text.length ≤ 1 ∨ Text.trimEnd text.toList = text.toList) :
    ∃ (key value : String) (form : Form), ';' ∉ key.toList ∧ Form.ofKey? key = some form ∧
      form.read value.toList = .ok (.text text) ∧ form.TrimSafe value.toList := by
  by_cases htrim : Text.trimEnd text.toList = text.toList
  · refine ⟨"string", text, .text, by decide, rfl, ?_, htrim⟩
    rw [Form.read, String.ofList_toList]
  · have hnil : text.toList ≠ [] := by
      intro hempty
      exact htrim (by rw [hempty]; rfl)
    have hlength : text.toList.length = 1 := by
      have hpos := List.length_pos_of_ne_nil hnil
      have hle := h.resolve_right htrim
      rw [← String.length_toList] at hle
      omega
    obtain ⟨c, hc⟩ := List.length_eq_one_iff.1 hlength
    have hkept : Text.trimEnd [c, 'x'] = [c, 'x'] :=
      Text.trimEnd_append_cons (by decide) [c] []
    refine ⟨"char", String.ofList [c, 'x'], .char, by decide, rfl, ?_, ?_⟩
    · rw [String.toList_ofList, ← text.ofList_toList, hc]
      rfl
    · rw [String.toList_ofList, Form.TrimSafe, hkept]
      exact List.cons_ne_nil _ _

theorem accepts_iff_of_asText? {e : Expectation} {v : Value} {text : String}
    (hv : v.asText? = some text) : e.accepts v = true ↔ e = .text text := by
  cases e with
  | text expected =>
      rw [accepts, hv, beq_iff_eq, Option.some.injEq, Expectation.text.injEq, eq_comm]
  | _ =>
      cases v with
      | char | wchar | string | wstring => simp [accepts, Value.asInt64?, Value.toInt?]
      | _ => cases hv

end Expectation

namespace Scenario

open Expectation (Form)

/-! ## Expectations in a scenario -/

/-- The scenario has an entry with the address, and expects this there. -/
structure Expects (s : Scenario) (address : String) (e : Expectation) : Prop where
  mem : address ∈ s.entries.map (·.address)
  expected_eq : ∀ entry ∈ s.entries, entry.address = address → entry.expected = e

theorem Expects.unique {s : Scenario} {address : String} {e e' : Expectation}
    (h : s.Expects address e) (h' : s.Expects address e') : e = e' := by
  obtain ⟨entry, hmem, hentry⟩ := List.mem_map.1 h.mem
  rw [← h.expected_eq entry hmem hentry, h'.expected_eq entry hmem hentry]

theorem expects_add (s : Scenario) (pair : Pair) :
    (s.add pair).Expects pair.address pair.expected := by
  by_cases h : pair.address ∈ s.entries.map (·.address)
  · have haddress : ∀ entry : Entry, (entry.revise pair).address = entry.address := by
      intro entry
      exact congrArg (·.2.1) (place_revise entry pair)
    constructor
    case mem =>
      rw [add, insert_of_mem h, List.map_map]
      simpa only [Function.comp_def, haddress] using h
    case expected_eq =>
      rw [add, insert_of_mem h, List.forall_mem_map]
      intro entry _ hentry
      rw [haddress] at hentry
      rw [Entry.revise, if_pos hentry]
  · constructor
    case mem =>
      rw [add, insert_of_notMem h]
      simp
    case expected_eq =>
      rw [add, insert_of_notMem h]
      intro entry hmem hentry
      rcases List.mem_append.1 hmem with hold | hnew
      · exact absurd (hentry ▸ List.mem_map_of_mem hold) h
      · rw [List.mem_singleton.1 hnew]

variable {s s' : Scenario} {address x : String} {tag : Tag} {e : Expectation}

theorem parse_trim (h : Tag.parse address = .ok tag) :
    Tag.parse (String.ofList (Text.trim address.toList)) = .ok tag := by
  rw [Tag.parse_eq_ok_iff] at h ⊢
  rw [String.toList_ofList, Text.trim_trim, h]

theorem withTag_eq_map (h : Tag.parse address = .ok tag) :
    s.withTag address x = (Expectation.parse (String.ofList (Text.trim x.toList))).map fun e =>
      s.add ⟨String.ofList (Text.trim address.toList), tag, e⟩ := by
  rw [withTag, Pair.read]
  simp only [parse_trim h, Except.mapError]
  cases Expectation.parse (String.ofList (Text.trim x.toList)) <;> rfl

/-- With an address that can be read, a tag is expected to hold what is read
without the blanks around it. -/
theorem exists_withTag_expects_iff (h : Tag.parse address = .ok tag) :
    (∃ s', s.withTag address x = .ok s' ∧
        s'.Expects (String.ofList (Text.trim address.toList)) e) ↔
      Expectation.parse (String.ofList (Text.trim x.toList)) = .ok e := by
  rw [withTag_eq_map h]
  constructor
  · rintro ⟨s', hs', hexpects⟩
    obtain ⟨e', he', rfl⟩ := map_eq_ok_iff.1 hs'
    rw [he', hexpects.unique (expects_add _ _)]
  · intro he
    exact ⟨_, map_eq_ok_iff.2 ⟨e, he, rfl⟩, expects_add _ _⟩

theorem exists_withTag_pair_expects_iff {key value : String} {form : Form}
    (h : Tag.parse address = .ok tag) (hkey : ';' ∉ key.toList)
    (hform : Form.ofKey? key = some form) (hread : form.read value.toList = .ok e) :
    (∃ s', s.withTag address (key ++ ";" ++ value) = .ok s' ∧
        s'.Expects (String.ofList (Text.trim address.toList)) e) ↔
      form.TrimSafe value.toList := by
  rw [exists_withTag_expects_iff h, Expectation.trim_append hform,
    Expectation.parse_append_eq_ok_iff hkey hform, String.toList_ofList,
    Expectation.read_trimEnd_eq_ok_iff hread]

/-- A value with a text can be expected by a scenario unless the text has two
characters or more and ends in a blank. -/
theorem exists_withTag_accepts_iff {v : Value} {text : String} (h : Tag.parse address = .ok tag)
    (hv : v.asText? = some text) :
    (∃ x s' e, s.withTag address x = .ok s' ∧
        s'.Expects (String.ofList (Text.trim address.toList)) e ∧ e.accepts v = true) ↔
      text.length ≤ 1 ∨ Text.trimEnd text.toList = text.toList := by
  constructor
  · rintro ⟨x, s', e, hs', hexpects, haccepts⟩
    obtain rfl := (Expectation.accepts_iff_of_asText? hv).1 haccepts
    have hparse := (exists_withTag_expects_iff h).1 ⟨s', hs', hexpects⟩
    obtain ⟨key, value, form, hpair, hkey, hform, hread⟩ :=
      Expectation.exists_of_parse_eq_ok hparse
    rcases Expectation.eq_of_read_eq_text hread with ⟨rfl, hvalue⟩ | ⟨-, hlength⟩
    · -- what is left is trimmed, and so is its value
      right
      have htrim := Expectation.trim_append hform value
      rw [← hpair, String.toList_ofList, Text.trim_trim, hpair, String.append_right_inj] at htrim
      rw [← hvalue, ← String.ofList_inj, ← htrim, String.ofList_toList]
    · exact .inl (by omega)
  · intro htext
    obtain ⟨key, value, form, hkey, hform, hread, hsafe⟩ :=
      Expectation.exists_trimSafe_of_text htext
    obtain ⟨s', hs', hexpects⟩ := (exists_withTag_pair_expects_iff h hkey hform hread).2 hsafe
    exact ⟨_, s', _, hs', hexpects, (Expectation.accepts_iff_of_asText? hv).2 rfl⟩

/-- An expectation that can be read is what a scenario expects with it if, and only
if, no blanks at its end belong to it.  Of a text that ends in blanks the scenario
expects the text without them, and a character that is blank with nothing but blanks
behind it is refused as if it were missing.  So of all texts, each of which some
expectation accepts, a scenario can expect just those that do not end in a blank
and those of one character. -/
theorem withTag_expects (s : Scenario) (address : String) (tag : Tag)
    (h : Tag.parse address = .ok tag) :
    (∀ x e, Expectation.parse x = .ok e →
      ∃ (key value : String) (form : Form), x = key ++ ";" ++ value ∧ ';' ∉ key.toList ∧
        Form.ofKey? key = some form ∧ form.read value.toList = .ok e ∧
        ((∃ s', s.withTag address x = .ok s' ∧
            s'.Expects (String.ofList (Text.trim address.toList)) e) ↔
          form.TrimSafe value.toList) ∧
        (form = .text → ∃ s', s.withTag address x = .ok s' ∧
          s'.Expects (String.ofList (Text.trim address.toList))
            (.text (String.ofList (Text.trimEnd value.toList)))) ∧
        (form = .char → Text.trimEnd value.toList = [] →
          s.withTag address x = .error (.config (.invalidValue key "")))) ∧
    ∀ v text, v.asText? = some text →
      (∃ x e, Expectation.parse x = .ok e ∧ e.accepts v = true) ∧
      ((∃ x s' e, s.withTag address x = .ok s' ∧
          s'.Expects (String.ofList (Text.trim address.toList)) e ∧ e.accepts v = true) ↔
        text.length ≤ 1 ∨ Text.trimEnd text.toList = text.toList) := by
  constructor
  · intro x e hx
    obtain ⟨key, value, form, rfl, hkey, hform, hread⟩ := Expectation.exists_of_parse_eq_ok hx
    refine ⟨key, value, form, rfl, hkey, hform, hread,
      exists_withTag_pair_expects_iff h hkey hform hread, ?_, ?_⟩
    · rintro rfl
      rw [exists_withTag_expects_iff h, Expectation.trim_append hform,
        Expectation.parse_append_eq_ok_iff hkey hform, String.toList_ofList]
      rfl
    · rintro rfl hempty
      rw [withTag_eq_map h, map_eq_error_iff, Expectation.trim_append hform,
        Expectation.parse_append_eq_mapError hkey hform, hempty]
      rfl
  · intro v text hv
    refine ⟨?_, exists_withTag_accepts_iff h hv⟩
    refine ⟨"string" ++ ";" ++ text, .text text, ?_, (Expectation.accepts_iff_of_asText? hv).2 rfl⟩
    rw [Expectation.parse_append_eq_ok_iff (by decide) rfl, Form.read, String.ofList_toList]

def motto : Tag := ⟨⟨9, 140, 0, .string, some 10⟩, rfl⟩

theorem motto_expects :
    (∃ s', (new 1 (.ofMillis 10)).withTag " %DB9:140:STRING(10)" "string;a; b \t" = .ok s' ∧
      s'.Expects "%DB9:140:STRING(10)" (.text "a; b")) ∧
    (∃ x s' e, (new 1 (.ofMillis 10)).withTag " %DB9:140:STRING(10)" x = .ok s' ∧
      s'.Expects "%DB9:140:STRING(10)" e ∧ e.accepts (.wchar " ") = true) ∧
    ¬ ∃ x s' e, (new 1 (.ofMillis 10)).withTag " %DB9:140:STRING(10)" x = .ok s' ∧
      s'.Expects "%DB9:140:STRING(10)" e ∧ e.accepts (.string "a; b ") = true := by
  have htag : Tag.parse " %DB9:140:STRING(10)" = .ok motto := by decide +kernel
  have haddress : String.ofList (Text.trim " %DB9:140:STRING(10)".toList) =
      "%DB9:140:STRING(10)" := by
    decide +kernel
  obtain ⟨hpairs, hvalues⟩ := withTag_expects (new 1 (.ofMillis 10)) _ _ htag
  rw [haddress] at hpairs hvalues
  refine ⟨?_, (hvalues (.wchar " ") " " rfl).2.2 (by decide), ?_⟩
  · obtain ⟨key, value, form, hx, hkey, hform, -, -, htext, -⟩ :=
      hpairs "string;a; b \t" (.text "a; b \t") (by decide +kernel)
    -- the key ends at the first semicolon
    have hsplit := Text.splitFirst?_append value.toList hkey
    have hgiven : Text.splitFirst? ';' "string;a; b \t".toList =
        some ("string".toList, "a; b \t".toList) := by
      decide +kernel
    rw [← Expectation.toList_pair, ← hx, hgiven, Option.some.injEq, Prod.mk.injEq,
      String.toList_inj, String.toList_inj] at hsplit
    obtain ⟨rfl, rfl⟩ := hsplit
    have hkept : String.ofList (Text.trimEnd "a; b \t".toList) = "a; b" := by decide +kernel
    rw [← hkept]
    exact htext (Option.some.inj hform).symm
  · rw [(hvalues (.string "a; b ") "a; b " rfl).2]
    decide +kernel

/-- A text that is read with a blank at its end, and not expected with it. -/
theorem trailing_blank_lost :
    Tag.parse "%DB9:140:STRING(10)" = .ok motto ∧
    Expectation.parse "string;hurz " = .ok (.text "hurz ") ∧
    ¬ ∃ s', (new 1 (.ofMillis 10)).withTag "%DB9:140:STRING(10)" "string;hurz " = .ok s' ∧
      s'.Expects "%DB9:140:STRING(10)" (.text "hurz ") := by
  have htag : Tag.parse "%DB9:140:STRING(10)" = .ok motto := by decide +kernel
  refine ⟨htag, by decide +kernel, ?_⟩
  rintro ⟨s', hs', hexpects⟩
  have hmotto := expects_add (new 1 (.ofMillis 10)) ⟨"%DB9:140:STRING(10)", motto, .text "hurz"⟩
  have hs : (new 1 (.ofMillis 10)).withTag "%DB9:140:STRING(10)" "string;hurz " =
      .ok ((new 1 (.ofMillis 10)).add ⟨"%DB9:140:STRING(10)", motto, .text "hurz"⟩) := by
    decide +kernel
  obtain rfl := Except.ok.inj (hs.symm.trans hs')
  exact absurd (hexpects.unique hmotto) (by decide)

end Scenario

end DataBlock
