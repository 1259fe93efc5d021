import DataBlock.Proofs.Text.Printed
import DataBlock.Proofs.Time.Calendar
import DataBlock.Proofs.Time.Millis
import DataBlock.Time.Interval
import DataBlock.Time.Reading
/-!
# Dates and times in print

A date or a time of day is read back from its print, whatever its year and
whether its second is a leap second or not.  A duration of whole milliseconds
is read back from their number.
-/

namespace DataBlock.Time

open Text (Numeral padded trim isBlank)

/-! ## Fields -/

/-- A numeral at the front is read whole if it fills the field or if no digit
follows it. -/
theorem digits?_append {width n : Nat} {s : List Char} (hs : Numeral s n) (rest : List Char)
    (hwidth : s.length ≤ width)
    (hrest : s.length = width ∨ ∀ c ∈ rest.head?, c.isDigit = false) :
    digits? width (s ++ rest) = some (n, rest) := by
  have hnext : (rest.take (width - s.length)).takeWhile Char.isDigit = [] := by
    rcases hrest with hfull | hhead
    · rw [hfull, Nat.sub_self, List.take_zero, List.takeWhile_nil]
    · cases rest with
      | nil => rw [List.take_nil, List.takeWhile_nil]
      | cons c rest =>
          have hc : c.isDigit = false := hhead c rfl
          cases width - s.length with
          | zero => rfl
          | succ k => rw [List.take_succ_cons, List.takeWhile_cons_of_neg (by simp [hc])]
  have hdigits : ((s ++ rest).take width).takeWhile Char.isDigit = s := by
    rw [List.take_append, List.take_of_length_le hwidth, List.takeWhile_append_of_pos hs.digits,
      hnext, List.append_nil]
  rw [digits?, hdigits, Text.numeral?_eq_some_iff.2 hs, Option.map_some, List.drop_left]

/-- Blanks are skipped only in front of a field. -/
theorem trimStart_append_of_numeral {n : Nat} {s : List Char} (hs : Numeral s n)
    (rest : List Char) : Text.trimStart (s ++ rest) = s ++ rest := by
  obtain ⟨c, tail, htail, hc⟩ := hs.exists_cons
  rw [htail, List.cons_append, Text.trimStart, List.dropWhile_cons_of_neg]
  rw [Text.isBlank_eq_false_of_isDigit hc]
  exact Bool.false_ne_true

theorem field?_padded {n : Nat} (hn : n < 100) (rest : List Char) :
    field? 2 (padded 2 n ++ rest) = some (n, rest) := by
  have hlength : (padded 2 n).length = 2 := Text.length_padded (by decide) hn
  have hnumeral := Text.numeral_padded 2 n
  rw [field?, trimStart_append_of_numeral hnumeral,
    digits?_append hnumeral rest (Nat.le_of_eq hlength) (.inl hlength)]

theorem mark?_cons (c : Char) (s : List Char) : mark? c (c :: s) = some s :=
  Text.dropStart?_append [c] s

/-! ## Dates -/

theorem yearField?_renderYear (year : Int) (rest : List Char) :
    yearField? (Date.renderYear year ++ '-' :: rest) = some (year, '-' :: rest) := by
  have hnumeral := Text.numeral_padded 4 year.natAbs
  -- behind a sign the field is as wide as the text, so the mark ends the year
  have hsigned : digits? (padded 4 year.natAbs ++ '-' :: rest).length
      (padded 4 year.natAbs ++ '-' :: rest) = some (year.natAbs, '-' :: rest) := by
    apply digits?_append hnumeral ('-' :: rest)
    · rw [List.length_append]
      exact Nat.le_add_right _ _
    · right
      intro c hc
      obtain rfl : '-' = c := by simpa using hc
      decide
  unfold Date.renderYear
  split
  · next hneg =>
    change (digits? _ _).map _ = _
    rw [List.append_eq, hsigned, Option.map_some]
    simp only [Option.some.injEq, Prod.mk.injEq, and_true]
    omega
  · split
    · next hnonneg hlong =>
      change (digits? _ _).map _ = _
      rw [List.append_eq, hsigned, Option.map_some]
      simp only [Option.some.injEq, Prod.mk.injEq, and_true]
      omega
    · next hnonneg hshort =>
      have hlength : (padded 4 year.natAbs).length = 4 :=
        Text.length_padded (by decide) (by omega)
      have hread := digits?_append hnumeral ('-' :: rest) (Nat.le_of_eq hlength)
        (.inl hlength)
      obtain ⟨c, tail, htail, hc⟩ := hnumeral.exists_cons
      rw [yearField?, trimStart_append_of_numeral hnumeral]
      rw [htail] at hread ⊢
      split
      · next heq =>
        rw [(List.cons.inj heq).1] at hc
        contradiction
      · next heq =>
        rw [(List.cons.inj heq).1] at hc
        contradiction
      · rw [hread, Option.map_some]
        simp only [Option.some.injEq, Prod.mk.injEq, and_true]
        omega

namespace Date

theorem day_le (d : Date) : d.day ≤ 31 := by
  have hlengths : ∀ length ∈ monthLengths d.year, length ≤ 31 := by
    unfold monthLengths
    cases isLeap d.year <;> decide
  have hlength : monthLength d.year d.month ≤ 31 := by
    rw [monthLength, if_neg (by have := d.month_mem; omega)]
    cases hmonth : (monthLengths d.year)[d.month - 1]? with
    | none => exact Nat.zero_le _
    | some length => exact hlengths length (List.mem_of_getElem? hmonth)
  exact Nat.le_trans d.day_mem.2 hlength

theorem ofYmd?_self (d : Date) : ofYmd? d.year d.month d.day = some d := by
  rw [ofYmd?, dif_pos d.year_mem, dif_pos d.day_mem]

/-- Every date is read back from its print. -/
theorem ofText?_render (d : Date) : ofText? d.render = some d := by
  have hmonth := d.month_mem
  have hday := d.day_le
  have hlast := field?_padded (by omega : d.day < 100) []
  rw [List.append_nil] at hlast
  have hrender : d.render =
      renderYear d.year ++ '-' :: (padded 2 d.month ++ '-' :: padded 2 d.day) := by
    simp [render]
  rw [hrender, ofText?, yearField?_renderYear]
  simp only [Option.bind_eq_bind, Option.bind_some, mark?_cons,
    field?_padded (by omega : d.month < 100), hlast, if_true, ofYmd?_self]

theorem render_injective : Function.Injective render := by
  intro a b h
  have hread := congrArg ofText? h
  rwa [ofText?_render, ofText?_render, Option.some.injEq] at hread

theorem trim_render (d : Date) : trim d.render = d.render := by
  apply Text.trim_eq_self
  have hpadded := Text.isBlank_eq_false_of_mem_padded
  have hyear : ∀ c ∈ renderYear d.year, isBlank c = false := by
    unfold renderYear
    split
    · exact List.forall_mem_cons.2 ⟨by decide, hpadded _ _⟩
    · split
      · exact List.forall_mem_cons.2 ⟨by decide, hpadded _ _⟩
      · exact hpadded _ _
  simp only [render, List.forall_mem_append, List.forall_mem_cons]
  exact ⟨⟨hyear, by decide, hpadded _ _⟩, by decide, hpadded _ _⟩

end Date

/-! ## Times of day -/

theorem fractionField?_padded {width n : Nat} (hpos : 0 < width) (hwidth : width ≤ 9)
    (hn : n < 10 ^ width) :
    fractionField? ('.' :: padded width n) = some (n * 10 ^ (9 - width), []) := by
  have hnumeral := Text.numeral_padded width n
  have hlength := Text.length_padded hpos hn
  have hdigits : (padded width n).takeWhile Char.isDigit = padded width n := by
    rw [← List.append_nil (padded width n), List.takeWhile_append_of_pos hnumeral.digits,
      List.takeWhile_nil]
  have hused : (padded width n).take 9 = padded width n :=
    List.take_of_length_le (by omega)
  simp only [fractionField?, hdigits, hused, Text.numeral?_eq_some_iff.2 hnumeral, hlength,
    Option.bind_eq_bind, Option.bind_some, Option.pure_def, Option.some.injEq, Prod.mk.injEq,
    true_and]
  exact List.drop_of_length_le (Nat.le_of_eq hlength)

/-- The digits that are left out of a fraction are zeros. -/
theorem fractionField?_renderFraction {nanos : Nat} (h : nanos < 1_000_000_000) :
    fractionField? (Clock.renderFraction nanos) = some (nanos, []) := by
  unfold Clock.renderFraction
  split
  · next hzero =>
    rw [hzero]
    rfl
  split
  · next hmillis =>
    rw [fractionField?_padded (by decide) (by decide) (by omega)]
    simp only [Option.some.injEq, Prod.mk.injEq, and_true]
    omega
  split
  · next hmicros =>
    rw [fractionField?_padded (by decide) (by decide) (by omega)]
    simp only [Option.some.injEq, Prod.mk.injEq, and_true]
    omega
  · rw [fractionField?_padded (by decide) (by decide) h]
    simp

theorem minuteField?_padded {hour minute : Nat} (hhour : hour < 24) (hminute : minute < 60)
    (rest : List Char) :
    minuteField? (padded 2 hour ++ ':' :: (padded 2 minute ++ rest)) =
      some (hour * 3600 + minute * 60, rest) := by
  rw [minuteField?, field?_padded (by omega)]
  simp only [Option.bind_eq_bind, Option.bind_some, mark?_cons,
    field?_padded (by omega : minute < 100), hhour, hminute, and_self, if_true]

namespace Clock

/-- Every time of day is read back from its print; the sixtieth second stands
for the nanoseconds beyond the last one. -/
theorem ofText?_render (t : Clock) : ofText? t.render = some t := by
  have hseconds := t.seconds_lt
  have hnanos := t.nanos_lt
  have hleap := t.leap
  have hsecond : t.seconds % 60 + t.nanos / 1_000_000_000 < 100 := by omega
  have hrender : t.render = padded 2 (t.seconds / 3600) ++ ':' ::
      (padded 2 (t.seconds / 60 % 60) ++ ':' ::
        (padded 2 (t.seconds % 60 + t.nanos / 1_000_000_000) ++
          renderFraction (t.nanos % 1_000_000_000))) := by
    simp [render]
  have hfull : ofFullText? t.render = some t := by
    rw [hrender, ofFullText?, minuteField?_padded (by omega) (by omega)]
    simp only [Option.bind_eq_bind, Option.bind_some, mark?_cons, field?_padded hsecond,
      fractionField?_renderFraction (Nat.mod_lt _ (by decide)), ne_eq, not_true_eq_false, if_false]
    split
    · rw [ofSeconds?_eq_some_iff]
      omega
    · rw [if_pos (by omega), ofSeconds?_eq_some_iff]
      omega
  rw [ofText?, hfull, Option.some_or]

theorem render_injective : Function.Injective render := by
  intro a b h
  have hread := congrArg ofText? h
  rwa [ofText?_render, ofText?_render, Option.some.injEq] at hread

theorem trim_render (t : Clock) : trim t.render = t.render := by
  apply Text.trim_eq_self
  have hpadded := Text.isBlank_eq_false_of_mem_padded
  have hfraction : ∀ c ∈ renderFraction (t.nanos % 1_000_000_000), isBlank c = false := by
    unfold renderFraction
    split
    · simp
    split
    · exact List.forall_mem_cons.2 ⟨by decide, hpadded _ _⟩
    split
    · exact List.forall_mem_cons.2 ⟨by decide, hpadded _ _⟩
    · exact List.forall_mem_cons.2 ⟨by decide, hpadded _ _⟩
  simp only [render, List.forall_mem_append, List.forall_mem_cons]
  exact ⟨⟨⟨hpadded _ _, by decide, hpadded _ _⟩, by decide, hpadded _ _⟩, hfraction⟩

end Clock

/-! ## Durations -/

/-- A number of milliseconds alone is a duration. -/
theorem Duration.ofText_toDigits {millis : Nat} (h : millis < UInt64.size) :
    ofText (Nat.toDigits 10 millis) = .ok (ofMillis (UInt64.ofNat millis)) := by
  have hnumeral := Text.numeral_toDigits millis
  have htrim : trim (Nat.toDigits 10 millis) = Nat.toDigits 10 millis :=
    Text.trim_eq_self hnumeral.isBlank_eq_false
  simp only [ofText, htrim, Text.natural?_of_numeral hnumeral h]

/-- Of a duration no more is printed than its whole milliseconds. -/
theorem Duration.render_eq_iff {a b : Duration} : a.render = b.render ↔ a.millis = b.millis := by
  constructor
  · intro h
    have ha := Text.numeral_toDigits a.millis
    rw [List.append_cancel_right h] at ha
    exact ha.unique (Text.numeral_toDigits b.millis)
  · intro h
    rw [render, render, h]

end DataBlock.Time
