import DataBlock.Expectation
import DataBlock.Proofs.Results
import DataBlock.Proofs.Text.Pieces
/-!
# Keys and values

An expectation is written as a key and a value with a semicolon between them.  No
key has a semicolon or a blank, so the first semicolon tells the two apart, and
blanks at the ends of an expectation are those of its value.
-/

namespace DataBlock.Expectation

def valueError (key value : String) : Time.Duration.Fault → Error
  | .malformed => .config (.invalidValue key value)
  | .overflow => .overflow

variable {key : String} {form : Form}

theorem toList_pair (key value : String) :
    (key ++ ";" ++ value).toList = key.toList ++ ';' :: value.toList := by
  simp

theorem parse_append_eq_mapError (hkey : ';' ∉ key.toList) (hform : Form.ofKey? key = some form)
    (value : String) :
    parse (key ++ ";" ++ value) = (form.read value.toList).mapError (valueError key value) := by
  have hsplit := Text.splitFirst?_append value.toList hkey
  simp only [parse, toList_pair, hsplit, String.ofList_toList, hform]
  rcases form.read value.toList with (_ | _) | e <;> rfl

theorem parse_append_eq_ok_iff {value : String} {e : Expectation} (hkey : ';' ∉ key.toList)
    (hform : Form.ofKey? key = some form) :
    parse (key ++ ";" ++ value) = .ok e ↔ form.read value.toList = .ok e := by
  rw [parse_append_eq_mapError hkey hform, mapError_eq_ok_iff]

theorem orMalformed_eq_ok_iff {result : Option Expectation} {e : Expectation} :
    Form.read.orMalformed result = .ok e ↔ result = some e := by
  cases result <;> simp [Form.read.orMalformed]

/-- A text is refused, or it has a key whose form reads the value. -/
theorem parse_cases (x : String) :
    (∃ fault, parse x = .error (.config fault)) ∨
    ∃ (key value : String) (form : Form), x = key ++ ";" ++ value ∧ ';' ∉ key.toList ∧
      Form.ofKey? key = some form := by
  unfold parse
  split
  · exact .inl ⟨_, rfl⟩
  · next key value hsplit =>
    obtain ⟨hx, hkey⟩ := Text.splitFirst?_eq_some hsplit
    dsimp only
    split
    · exact .inl ⟨_, rfl⟩
    · next form hform =>
      refine .inr ⟨String.ofList key, String.ofList value, form, ?_, ?_, hform⟩
      · rw [← String.toList_inj, toList_pair, String.toList_ofList, String.toList_ofList, hx]
      · rwa [String.toList_ofList]

theorem exists_of_parse_eq_ok {x : String} {e : Expectation} (h : parse x = .ok e) :
    ∃ (key value : String) (form : Form), x = key ++ ";" ++ value ∧ ';' ∉ key.toList ∧
      Form.ofKey? key = some form ∧ form.read value.toList = .ok e := by
  rcases parse_cases x with ⟨fault, hfault⟩ | ⟨key, value, form, rfl, hkey, hform⟩
  · rw [h] at hfault
    cases hfault
  · exact ⟨key, value, form, rfl, hkey, hform, (parse_append_eq_ok_iff hkey hform).1 h⟩

theorem all_notBlank_of_ofKey? (h : Form.ofKey? key = some form) :
    (key.toList.all fun c => !Text.isBlank c) = true := by
  unfold Form.ofKey? at h
  split at h
  case h_32 => cases h
  all_goals decide

/-- Blanks are cut from the end of the value alone. -/
theorem trim_append (h : Form.ofKey? key = some form) (value : String) :
    String.ofList (Text.trim (key ++ ";" ++ value).toList) =
      key ++ ";" ++ String.ofList (Text.trimEnd value.toList) := by
  have hstart : ∀ c ∈ (key.toList ++ ';' :: value.toList).head?, Text.isBlank c = false := by
    cases hkey : key.toList with
    | nil => simpa using (by decide : Text.isBlank ';' = false)
    | cons first rest =>
        have hfirst := List.all_eq_true.1 (all_notBlank_of_ofKey? h) first (by simp [hkey])
        simpa using hfirst
  rw [toList_pair, Text.trim, Text.trimStart_eq_self hstart, Text.trimEnd_append_cons (by decide),
    ← String.toList_inj, toList_pair, String.toList_ofList, String.toList_ofList]

end DataBlock.Expectation
