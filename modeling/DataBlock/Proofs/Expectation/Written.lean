import DataBlock.Proofs.Decoding.Span
import DataBlock.Proofs.Expectation.Pairs
import DataBlock.Proofs.Tag.Grammar
import DataBlock.Proofs.Time.Printed
/-!
# Values written as expectations

A decoded value, written behind the name of its type, is an expectation that
accepts this value and no other of the type.  Two things make it so: a decoded
value is as narrow as its type, so that the reader of the key takes it whole,
and among the values of one type no two agree in what is compared.
-/

namespace DataBlock

namespace Value

/-- The content as an expectation has it: that of a duration without the unit. -/
def written : Value → String
  | time duration => String.ofList (Nat.toDigits 10 duration.millis)
  | v => v.render

theorem render_time (duration : Time.Duration) :
    (time duration).render = (time duration).written ++ "ms" := by
  rw [render, written, Time.Duration.render, String.ofList_append]

theorem written_of_type_ne {v : Value} (h : v.type ≠ .time) : v.written = v.render := by
  cases v with
  | time => exact absurd rfl h
  | _ => rfl

/-- The content is one that the bytes of the type can stand for. -/
def Fits : Value → Prop
  | byte n | usint n => n.toNat < UInt8.size
  | dword n | udint n => n.toNat < UInt32.size
  | char text | wchar text => ∃ c, text = String.ofList [c]
  | time duration => ∃ millis : UInt32, duration = .ofMillis millis.toUInt64
  | _ => True

/-! ## What is decoded -/

theorem exists_latin1_of_slice {buf bytes : Bytes} (h : buf.slice 0 1 = .ok bytes) :
    ∃ c, bytes.latin1 = String.ofList [c] := by
  obtain ⟨byte, rfl⟩ := List.length_eq_one_iff.1 (Bytes.length_of_slice h)
  exact ⟨_, rfl⟩

theorem exists_of_utf16Unit {unit : UInt16} {text : String}
    (h : Bytes.utf16Unit unit = .ok text) : ∃ c, text = String.ofList [c] := by
  unfold Bytes.utf16Unit at h
  split at h
  · next c _ => exact ⟨c, (Except.ok.inj h).symm⟩
  · cases h

theorem fits_of_decodeSpan {t : Tag} {buf : Bytes} {v : Value} (h : t.decodeSpan buf = .ok v) :
    v.type = t.type ∧ v.Fits := by
  cases htype : t.type with
  | bool | word | sint | int | uint | dint | real | lreal =>
      simp only [Tag.decodeSpan, htype] at h
      obtain ⟨_, _, h⟩ := bind_eq_ok_iff.1 h
      cases h
      exact ⟨rfl, trivial⟩
  | byte | usint | dword | udint =>
      simp only [Tag.decodeSpan, htype] at h
      obtain ⟨n, _, h⟩ := bind_eq_ok_iff.1 h
      cases h
      exact ⟨rfl, n.toNat_lt⟩
  | char =>
      simp only [Tag.decodeSpan, htype] at h
      obtain ⟨bytes, hbytes, h⟩ := bind_eq_ok_iff.1 h
      cases h
      exact ⟨rfl, exists_latin1_of_slice hbytes⟩
  | wchar =>
      simp only [Tag.decodeSpan, htype] at h
      obtain ⟨unit, _, h⟩ := bind_eq_ok_iff.1 h
      obtain ⟨text, htext, h⟩ := bind_eq_ok_iff.1 h
      cases h
      exact ⟨rfl, exists_of_utf16Unit htext⟩
  | string | wstring =>
      simp only [Tag.decodeSpan, htype] at h
      obtain ⟨actual, _, h⟩ := bind_eq_ok_iff.1 h
      obtain ⟨text, _, h⟩ := bind_eq_ok_iff.1 h
      cases h
      exact ⟨rfl, trivial⟩
  | time =>
      simp only [Tag.decodeSpan, htype] at h
      obtain ⟨millis, _, h⟩ := bind_eq_ok_iff.1 h
      cases h
      exact ⟨rfl, millis, rfl⟩
  | date =>
      simp only [Tag.decodeSpan, htype] at h
      obtain ⟨days, _, h⟩ := bind_eq_ok_iff.1 h
      unfold ofDays at h
      split at h <;> cases h
      exact ⟨rfl, trivial⟩
  | timeOfDay =>
      simp only [Tag.decodeSpan, htype] at h
      obtain ⟨millis, _, h⟩ := bind_eq_ok_iff.1 h
      unfold ofMillisOfDay at h
      split at h <;> cases h
      exact ⟨rfl, trivial⟩

theorem fits_of_decode {t : Tag} {buf : Bytes} {v : Value} (h : t.decode buf = .ok v) :
    v.type = t.type ∧ v.Fits := by
  rcases Nat.lt_or_ge buf.length t.span.length.toNat with hshort | hlength
  · rw [Tag.decode_of_lt hshort] at h
    cases h
  · rw [Tag.decode_of_le hlength] at h
    exact fits_of_decodeSpan h

/-! ## Values of one type -/

variable {v w : Value}

theorem eq_of_toInt? {n : Int} (htype : w.type = v.type) (hv : v.toInt? = some n)
    (hw : w.toInt? = some n) : w = v := by
  rw [← hv] at hw
  cases v with
  | byte a | word a | dword a | sint a | usint a | int a | uint a | dint a | udint a =>
      cases w <;> try contradiction
      simp only [toInt?, Option.some.injEq, Int.natCast_inj, UInt16.toNat_inj, UInt64.toNat_inj,
        Int8.toInt_inj, Int16.toInt_inj, Int32.toInt_inj] at hw
      rw [hw]
  | _ => contradiction

theorem eq_of_asText? {text : String} (htype : w.type = v.type) (hv : v.asText? = some text)
    (hw : w.asText? = some text) : w = v := by
  cases v with
  | char a | wchar a | string a | wstring a =>
      cases w <;> try contradiction
      simp only [asText?, Option.some.injEq] at hv hw
      rw [hv, hw]
  | _ => contradiction

theorem beq_iff_eq_of_type (hreal : v.type ≠ .real) (hlreal : v.type ≠ .lreal) :
    (w == v) = true ↔ w = v := by
  unfold BEq.beq instBEq
  dsimp only
  split
  · exact absurd rfl hreal
  · exact absurd rfl hlreal
  · exact decide_eq_true_iff

theorem minValue_le_of_toInt? {n : Int} (h : v.toInt? = some n) : Int64.minValue.toInt ≤ n := by
  have hmin : Int64.minValue.toInt = -2 ^ 63 := by decide
  rw [hmin]
  cases v with
  | byte a | word a | dword a | usint a | uint a | udint a =>
      rw [← Option.some.inj h]
      omega
  | sint a | int a | dint a =>
      have ha := a.le_toInt
      rw [← Option.some.inj h]
      omega
  | _ => contradiction

theorem toInt_ofInt {n : Int} (hlow : Int64.minValue.toInt ≤ n)
    (hhigh : n ≤ Int64.maxValue.toInt) : (Int64.ofInt n).toInt = n :=
  Int64.toInt_ofInt_of_le hlow (Int.lt_add_one_of_le hhigh)

/-- A number of 64 bits is compared as the number it is. -/
theorem asInt64?_eq_some_iff {n : Int} (hlow : Int64.minValue.toInt ≤ n)
    (hhigh : n ≤ Int64.maxValue.toInt) :
    v.asInt64? = some (Int64.ofInt n) ↔ v.toInt? = some n := by
  rw [asInt64?, Option.map_eq_some_iff]
  constructor
  · rintro ⟨m, hm, heq⟩
    rw [Option.filter_eq_some_iff, decide_eq_true_eq] at hm
    have hsame : m = n := by
      rw [← toInt_ofInt (minValue_le_of_toInt? hm.1) hm.2, heq, toInt_ofInt hlow hhigh]
    rw [← hsame]
    exact hm.1
  · intro h
    refine ⟨n, ?_, rfl⟩
    rw [Option.filter_eq_some_iff, decide_eq_true_eq]
    exact ⟨h, hhigh⟩

theorem written_of_toInt? {n : Int} (h : v.toInt? = some n) : v.written = n.repr := by
  cases v with
  | byte | word | usint | uint | dword | udint | sint | int | dint =>
      rw [← Option.some.inj h]
      rfl
  | _ => contradiction

theorem written_of_asText? {text : String} (h : v.asText? = some text) : v.written = text := by
  cases v with
  | char | wchar | string | wstring => exact Option.some.inj h
  | _ => contradiction

end Value

namespace Expectation

/-- The value behind the name of its type is the expectation, and no other value
of the type is accepted. -/
structure SinglesOut (e : Expectation) (v : Value) : Prop where
  parse_eq : parse (v.type.name ++ ";" ++ v.written) = .ok e
  accepts_iff : ∀ w : Value, w.type = v.type → (e.accepts w = true ↔ w = v)

variable {v : Value}

/-- No name of a type has a semicolon, so the first one is that behind the name. -/
theorem parse_written {form : Form} {e : Expectation} (hform : Form.ofKey? v.type.name = some form)
    (hread : form.read v.written.toList = .ok e) :
    parse (v.type.name ++ ";" ++ v.written) = .ok e :=
  (parse_append_eq_ok_iff (Tag.notMem_name (by decide) (by decide)) hform).2 hread

/-! ## Numbers -/

/-- The key of an integer type takes every number of the type. -/
theorem exists_form_of_toInt? {n : Int} (hfits : v.Fits) (hn : v.toInt? = some n) :
    ∃ low high, Form.ofKey? v.type.name = some (.int low high) ∧
      (low ≤ n ∧ n ≤ high) ∧ Int64.minValue.toInt ≤ low ∧ high ≤ Int64.maxValue.toInt := by
  cases v with
  | byte a | usint a | dword a | udint a =>
      refine ⟨_, _, rfl, ?_, by decide, by decide⟩
      rw [← Option.some.inj hn]
      exact ⟨Int.natCast_nonneg _, Int.le_sub_one_of_lt (Int.ofNat_lt.2 hfits)⟩
  | word a | uint a =>
      refine ⟨_, _, rfl, ?_, by decide, by decide⟩
      rw [← Option.some.inj hn]
      exact ⟨Int.natCast_nonneg _, Int.le_sub_one_of_lt (Int.ofNat_lt.2 a.toNat_lt)⟩
  | sint a | int a | dint a =>
      refine ⟨_, _, rfl, ?_, by decide, by decide⟩
      rw [← Option.some.inj hn]
      exact ⟨a.le_toInt, Int.le_sub_one_of_lt a.toInt_lt⟩
  | _ => contradiction

theorem singlesOut_of_toInt? {n : Int} (hfits : v.Fits) (hn : v.toInt? = some n) :
    SinglesOut (.int (Int64.ofInt n)) v := by
  obtain ⟨low, high, hform, ⟨hlow, hhigh⟩, hleast, hmost⟩ := exists_form_of_toInt? hfits hn
  have hread : (Form.int low high).read v.written.toList = .ok (.int (Int64.ofInt n)) := by
    rw [Value.written_of_toInt? hn, Form.read, Text.trim_repr, Text.integer?_repr hlow hhigh]
    rfl
  refine ⟨parse_written hform hread, ?_⟩
  intro w htype
  rw [accepts, beq_iff_eq, Value.asInt64?_eq_some_iff (by omega) (by omega)]
  constructor
  · exact Value.eq_of_toInt? htype hn
  · rintro rfl
    exact hn

/-! ## Texts -/

/-- A character is read as the first of what is written, a text as all of it. -/
theorem exists_form_of_asText? {text : String} (hfits : v.Fits) (htext : v.asText? = some text) :
    ∃ form, Form.ofKey? v.type.name = some form ∧ form.read text.toList = .ok (.text text) := by
  cases v with
  | char a | wchar a =>
      obtain ⟨c, hc⟩ := hfits
      obtain rfl : a = text := Option.some.inj htext
      refine ⟨.char, rfl, ?_⟩
      rw [hc, String.toList_ofList]
      rfl
  | string a | wstring a =>
      refine ⟨.text, rfl, ?_⟩
      rw [Form.read, String.ofList_toList]
  | _ => contradiction

theorem singlesOut_of_asText? {text : String} (hfits : v.Fits) (htext : v.asText? = some text) :
    SinglesOut (.text text) v := by
  obtain ⟨form, hform, hread⟩ := exists_form_of_asText? hfits htext
  have hwritten : form.read v.written.toList = .ok (.text text) := by
    rw [Value.written_of_asText? htext]
    exact hread
  refine ⟨parse_written hform hwritten, ?_⟩
  intro w htype
  rw [accepts, beq_iff_eq]
  constructor
  · exact Value.eq_of_asText? htype htext
  · rintro rfl
    exact htext

/-! ## The other types -/

theorem accepts_bool_iff {b : Bool} : (bool b).accepts v = true ↔ v = .bool b := by
  cases v with
  | bool => rw [accepts, beq_iff_eq, Value.bool.injEq, eq_comm]
  | _ => simp [accepts]

theorem accepts_time_iff {duration : Time.Duration} :
    (time duration).accepts v = true ↔ v = .time duration := by
  cases v with
  | time => rw [accepts, beq_iff_eq, Value.time.injEq, eq_comm]
  | _ => simp [accepts]

theorem accepts_date_iff {day : Time.Date} : (date day).accepts v = true ↔ v = .date day := by
  cases v with
  | date => rw [accepts, beq_iff_eq, Value.date.injEq, eq_comm]
  | _ => simp [accepts]

theorem accepts_timeOfDay_iff {clock : Time.Clock} :
    (timeOfDay clock).accepts v = true ↔ v = .timeOfDay clock := by
  cases v with
  | timeOfDay => rw [accepts, beq_iff_eq, Value.timeOfDay.injEq, eq_comm]
  | _ => simp [accepts]

theorem singlesOut_bool (b : Bool) : SinglesOut (.bool b) (.bool b) := by
  have hread : Form.bool.read (Value.bool b).written.toList = .ok (.bool b) := by
    cases b <;> rfl
  exact ⟨parse_written rfl hread, fun w _ => accepts_bool_iff⟩

theorem singlesOut_time {duration : Time.Duration} (hfits : (Value.time duration).Fits) :
    SinglesOut (.time duration) (.time duration) := by
  obtain ⟨millis, rfl⟩ := hfits
  have hread : Form.time.read (Value.time (.ofMillis millis.toUInt64)).written.toList =
      .ok (.time (.ofMillis millis.toUInt64)) := by
    rw [Value.written, String.toList_ofList, Form.read, Time.Duration.millis_ofMillis,
      Time.Duration.ofText_toDigits (UInt64.toNat_lt_size _), UInt64.ofNat_toNat]
    rfl
  exact ⟨parse_written rfl hread, fun w _ => accepts_time_iff⟩

theorem singlesOut_date (day : Time.Date) : SinglesOut (.date day) (.date day) := by
  have hread : Form.date.read (Value.date day).written.toList = .ok (.date day) := by
    have hwritten : (Value.date day).written = String.ofList day.render := rfl
    rw [hwritten, String.toList_ofList, Form.read, day.trim_render, day.ofText?_render]
    rfl
  exact ⟨parse_written rfl hread, fun w _ => accepts_date_iff⟩

theorem singlesOut_timeOfDay (clock : Time.Clock) :
    SinglesOut (.timeOfDay clock) (.timeOfDay clock) := by
  have hread : Form.timeOfDay.read (Value.timeOfDay clock).written.toList =
      .ok (.timeOfDay clock) := by
    have hwritten : (Value.timeOfDay clock).written = String.ofList clock.render := rfl
    rw [hwritten, String.toList_ofList, Form.read, clock.trim_render, clock.ofText?_render]
    rfl
  exact ⟨parse_written rfl hread, fun w _ => accepts_timeOfDay_iff⟩

theorem exists_singlesOut (hfits : v.Fits) (hreal : v.type ≠ .real) (hlreal : v.type ≠ .lreal) :
    ∃ e, SinglesOut e v := by
  cases v with
  | bool b => exact ⟨_, singlesOut_bool b⟩
  | byte | word | dword | sint | usint | int | uint | dint | udint =>
      exact ⟨_, singlesOut_of_toInt? hfits rfl⟩
  | real => exact absurd rfl hreal
  | lreal => exact absurd rfl hlreal
  | char | wchar | string | wstring => exact ⟨_, singlesOut_of_asText? hfits rfl⟩
  | time duration => exact ⟨_, singlesOut_time hfits⟩
  | date day => exact ⟨_, singlesOut_date day⟩
  | timeOfDay clock => exact ⟨_, singlesOut_timeOfDay clock⟩

/-- A decoded value of any type but `REAL` and `LREAL` can be written down as an
expectation, and of all that is decoded as this type the expectation accepts
what equals the value. -/
theorem parse_written_singlesOut (t : Tag) (buf : Bytes) (v : Value)
    (hreal : t.type ≠ .real) (hlreal : t.type ≠ .lreal) (h : t.decode buf = .ok v) :
    ∃ e, parse (t.type.name ++ ";" ++ v.written) = .ok e ∧
      ∀ (t' : Tag) (buf' : Bytes) (w : Value), t'.type = t.type → t'.decode buf' = .ok w →
        (e.accepts w = true ↔ (w == v) = true) := by
  obtain ⟨htype, hfits⟩ := Value.fits_of_decode h
  rw [← htype] at hreal hlreal ⊢
  obtain ⟨e, he⟩ := exists_singlesOut hfits hreal hlreal
  refine ⟨e, he.parse_eq, ?_⟩
  intro t' buf' w htype' hw
  rw [Value.beq_iff_eq_of_type hreal hlreal]
  exact he.accepts_iff w ((Value.fits_of_decode hw).1.trans htype')

def note : Tag := ⟨⟨4, 396, 0, .string, some 5⟩, rfl⟩

/-- A blank, a semicolon, a letter and a line feed, behind a length of four. -/
def noteBytes : Bytes := [5, 4, 0x20, 0x3B, 0x62, 0x0A, 0xFF]

def alarm : Tag := ⟨⟨4, 8, 0, .timeOfDay, none⟩, rfl⟩

/-- Half past twelve and 56 milliseconds. -/
def alarmBytes : Bytes := [0x02, 0xAE, 0xA5, 0x78]

theorem parse_note_and_alarm :
    (∃ e, parse (note.type.name ++ ";" ++ (Value.string " ;b\n").written) = .ok e ∧
      ∀ (t : Tag) (buf : Bytes) (w : Value), t.type = note.type → t.decode buf = .ok w →
        (e.accepts w = true ↔ (w == Value.string " ;b\n") = true)) ∧
    ∃ clock e, alarm.decode alarmBytes = .ok (.timeOfDay clock) ∧
      clock.render = "12:30:00.056".toList ∧
      parse (alarm.type.name ++ ";" ++ (Value.timeOfDay clock).written) = .ok e ∧
      ∀ (t : Tag) (buf : Bytes) (w : Value), t.type = alarm.type → t.decode buf = .ok w →
        (e.accepts w = true ↔ (w == Value.timeOfDay clock) = true) := by
  have hnote : note.decode noteBytes = .ok (.string " ;b\n") := by decide
  have halarm : alarm.decode alarmBytes =
      .ok (.timeOfDay ⟨45000, 56_000_000, by decide, by decide, by decide⟩) := by decide
  obtain ⟨e, he⟩ := parse_written_singlesOut alarm alarmBytes _ (by decide) (by decide) halarm
  refine ⟨parse_written_singlesOut note noteBytes _ (by decide) (by decide) hnote, _, e, halarm,
    ?_, he⟩
  decide

end Expectation

end DataBlock
