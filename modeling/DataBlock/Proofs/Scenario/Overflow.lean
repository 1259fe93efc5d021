import DataBlock.Proofs.Expectation.Pairs
import DataBlock.Proofs.Scenario.Lines
import DataBlock.Proofs.Text.Positions
import DataBlock.Proofs.Time.Periods
/-!
# Texts that fail for a sum

An expectation is read, refused with an error of configuration, or it is a
period that is too long and fails for the sum of its components.  Such a period
is the only thing that keeps a text with tags from being read or refused.
-/

namespace DataBlock

namespace Expectation

def TooLong (x : String) : Prop :=
  ∃ key value, (key = "time" ∨ key = "TIME") ∧ x = key ++ ";" ++ value ∧
    Time.Duration.TooLong (Text.trim value.toList)

theorem ofKey?_eq_time_iff {key : String} :
    Form.ofKey? key = some .time ↔ key = "time" ∨ key = "TIME" := by
  constructor
  · intro h
    unfold Form.ofKey? at h
    split at h <;> simp_all [Form.signed, Form.unsigned]
  · rintro (rfl | rfl) <;> rfl

theorem orMalformed_ne_overflow (result : Option Expectation) :
    Form.read.orMalformed result ≠ .error .overflow := by
  cases result <;> simp [Form.read.orMalformed]

theorem read_eq_overflow_iff {form : Form} {value : List Char} :
    form.read value = .error .overflow ↔
      form = .time ∧ Time.Duration.ofText value = .error .overflow := by
  cases form with
  | time =>
      rw [Form.read]
      cases Time.Duration.ofText value <;> simp [Except.map]
  | bool | text => simp [Form.read]
  | int | float | char | date | timeOfDay =>
      rw [Form.read]
      simp [orMalformed_ne_overflow]

/-- A text that is read as no expectation is refused, or its sum is out of range. -/
theorem eq_of_parse_eq_error {x : String} {e : Error} (h : parse x = .error e) :
    (∃ fault, e = .config fault) ∨ e = .overflow ∧ TooLong x := by
  rcases parse_cases x with ⟨fault, hfault⟩ | ⟨key, value, form, rfl, hkey, hform⟩
  · exact .inl ⟨fault, Except.error.inj (h.symm.trans hfault)⟩
  · rw [parse_append_eq_mapError hkey hform, mapError_eq_error_iff] at h
    obtain ⟨fault, hread, rfl⟩ := h
    cases fault with
    | malformed => exact .inl ⟨_, rfl⟩
    | overflow =>
        obtain ⟨rfl, hlong⟩ := read_eq_overflow_iff.1 hread
        exact .inr ⟨rfl, key, value, ofKey?_eq_time_iff.1 hform, rfl,
          Time.Duration.ofText_eq_overflow_iff.1 hlong⟩

theorem parse_of_tooLong {x : String} (h : TooLong x) : parse x = .error .overflow := by
  obtain ⟨key, value, hkey, rfl, hlong⟩ := h
  have hfree : ';' ∉ key.toList := by
    rcases hkey with rfl | rfl <;> decide
  have hread := read_eq_overflow_iff.2 ⟨rfl, Time.Duration.ofText_eq_overflow_iff.2 hlong⟩
  rw [parse_append_eq_mapError hfree (ofKey?_eq_time_iff.2 hkey), hread]
  rfl

theorem parse_eq_overflow_iff {x : String} : parse x = .error .overflow ↔ TooLong x := by
  refine ⟨?_, parse_of_tooLong⟩
  intro h
  rcases eq_of_parse_eq_error h with ⟨fault, hfault⟩ | ⟨-, hlong⟩
  · cases hfault
  · exact hlong

end Expectation

namespace Scenario

/-- A pair fails for the sum of its expectation, and only behind an address that
can be read. -/
theorem read_eq_overflow_iff {w : Written} :
    w.read = .error .overflow ↔
      (∃ tag, Tag.parse w.address = .ok tag) ∧ Expectation.TooLong w.expected := by
  rw [← Expectation.parse_eq_overflow_iff, Written.read]
  rcases Tag.parse w.address with e | tag
  · simp [Except.mapError, bind, Except.bind]
  · rcases Expectation.parse w.expected with e | expected
    · simp [Except.mapError, bind, Except.bind]
    · simp [Except.mapError, bind, Except.bind, pure, Except.pure]

theorem withTag_eq_overflow_iff {s : Scenario} {address expected : String} :
    s.withTag address expected = .error .overflow ↔
      (Written.of address.toList expected.toList).read = .error .overflow :=
  bind_pure_eq_error_iff

theorem atLine_eq_overflow_iff {number : Nat} {line : List Char} {cause : Error} :
    atLine number line cause = .overflow ↔ cause = .overflow := by
  cases cause <;> simp [atLine]

theorem withTags_eq_overflow_iff {s : Scenario} {text : String} :
    s.withTags text = .error .overflow ↔
      ∃ n line, FirstFault (Text.lines text.toList) n line .overflow := by
  rw [withTags, bind_pure_eq_error_iff, readLines_eq_error_iff]
  constructor
  · rintro ⟨n, line, cause, hfault, heq⟩
    obtain rfl := atLine_eq_overflow_iff.1 heq.symm
    exact ⟨n, line, hfault⟩
  · rintro ⟨n, line, hfault⟩
    exact ⟨n, line, .overflow, hfault, rfl⟩

/-- An expectation is read or refused with an error of configuration, unless it is
a period that is too long: then, and only then, its sum is out of range.  A tag
and the tags of a text fail for a sum only by such a period, behind an address
that can be read, and in a text only on the first line that is not read.  No cut
of a period falls within a character. -/
theorem overflow_iff_tooLong (s : Scenario) (x address text : String) (period : List Char) :
    ((∃ e, Expectation.parse x = .ok e) ∨ (∃ fault, Expectation.parse x = .error (.config fault)) ∨
      Expectation.parse x = .error .overflow) ∧
    (Expectation.parse x = .error .overflow ↔ Expectation.TooLong x) ∧
    (∀ w : Written, w.read = .error .overflow ↔
      (∃ tag, Tag.parse w.address = .ok tag) ∧ Expectation.TooLong w.expected) ∧
    (s.withTag address x = .error .overflow ↔
      (Written.of address.toList x.toList).read = .error .overflow) ∧
    (s.withTags text = .error .overflow ↔
      ∃ n line, FirstFault (Text.lines text.toList) n line .overflow) ∧
    Text.CutsAround (fun c => c != 'T' && c != 't') period ∧
    Text.CutsAround (fun c => !c.isAlpha) period := by
  refine ⟨?_, Expectation.parse_eq_overflow_iff, fun w => read_eq_overflow_iff,
    withTag_eq_overflow_iff, withTags_eq_overflow_iff, ?_, ?_⟩
  · rcases hparse : Expectation.parse x with e | expected
    · rcases Expectation.eq_of_parse_eq_error hparse with ⟨fault, rfl⟩ | ⟨rfl, -⟩
      · exact .inr (.inl ⟨fault, rfl⟩)
      · exact .inr (.inr rfl)
    · exact .inl ⟨expected, rfl⟩
  · apply Text.cutsAround
    intro c hc
    rcases Time.Duration.mark_iff.1 hc with rfl | rfl <;> decide
  · apply Text.cutsAround
    intro c hc
    exact Text.utf8Size_of_isAlpha (by simpa using hc)

/-- As many days as there can be, and the seconds that take them to the limit. -/
theorem longest_period_overflows :
    Expectation.parse "time;P213503982334601DT25216S" = .error .overflow ∧
    (new 1 (.ofMillis 10)).withTag "%DB1:0:TIME" "time;P213503982334601DT25216S" =
      .error .overflow ∧
    (new 1 (.ofMillis 10)).withTags "%DB1:0:TIME | time;P213503982334601DT25216S" =
      .error .overflow := by
  refine ⟨?_, ?_, ?_⟩
  · decide +kernel
  · decide +kernel
  · decide +kernel

end Scenario

end DataBlock
