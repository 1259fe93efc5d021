import DataBlock.Proofs.Text.Pieces
import DataBlock.Proofs.Time.Millis
import DataBlock.Time.Interval
/-!
# Periods out of range

The components of a period are added from left to right, and the sum is in range
as long as it stays below the limit.  A period is refused for its length alone
if the days and the components up to some point reach the limit; what follows
that point is not looked at.
-/

namespace DataBlock

namespace Text

theorem toNat_toUpper (c : Char) :
    c.toUpper.toNat = if 97 ≤ c.toNat ∧ c.toNat ≤ 122 then c.toNat - 32 else c.toNat := by
  have hiff : 'a'.val ≤ c.val ∧ c.val ≤ 'z'.val ↔ 97 ≤ c.toNat ∧ c.toNat ≤ 122 := by
    rw [UInt32.le_iff_toNat_le, UInt32.le_iff_toNat_le]
    rfl
  unfold Char.toUpper
  split
  · next h =>
    rw [if_pos (hiff.1 h)]
    have hrange := hiff.1 h
    change (c.val + ('A'.val - 'a'.val)).toNat = c.val.toNat - 32
    change 97 ≤ c.val.toNat ∧ c.val.toNat ≤ 122 at hrange
    have hdiff : ('A'.val - 'a'.val).toNat = 2 ^ 32 - 32 := by decide
    rw [UInt32.toNat_add, hdiff]
    omega
  · next h => rw [if_neg fun hrange => h (hiff.2 hrange)]

theorem toUpper_eq_iff {c u l : Char} (hu : u.isUpper = true) (hl : l.toNat = u.toNat + 32) :
    c.toUpper = u ↔ c = u ∨ c = l := by
  have hletter : 'A'.val ≤ u.val ∧ u.val ≤ 'Z'.val := of_decide_eq_true hu
  have hrange : 65 ≤ u.toNat ∧ u.toNat ≤ 90 := by
    rw [UInt32.le_iff_toNat_le, UInt32.le_iff_toNat_le] at hletter
    exact hletter
  rw [← Char.toNat_inj, ← Char.toNat_inj, ← Char.toNat_inj, toNat_toUpper]
  split <;> omega

end Text

namespace Time.Duration

inductive UnitOf : Char → Nat → Prop
  | hours {unit : Char} (h : unit = 'H' ∨ unit = 'h') : UnitOf unit 3600
  | minutes {unit : Char} (h : unit = 'M' ∨ unit = 'm') : UnitOf unit 60
  | seconds {unit : Char} (h : unit = 'S' ∨ unit = 's') : UnitOf unit 1

/-- Components at the front of a text, each a number without letters and the
letter of its unit, and the text behind them. -/
inductive Components : List Char → List Duration → List Char → Prop
  | nil (rest : List Char) : Components rest [] rest
  | cons {number s rest : List Char} {unit : Char} {part : Duration} {parts : List Duration}
      (hnumber : ∀ c ∈ number, c.isAlpha = false) (hpart : component? number unit = some part)
      (hrest : Components s parts rest) :
      Components (number ++ unit :: s) (part :: parts) rest

/-- The days of a period: none, or a count of them and the letter `D`. -/
inductive Days : List Char → Duration → Prop
  | none : Days [] zero
  | counted {digits : List Char} {count : Nat} {mark : Char} {days : Duration}
      (hmark : mark = 'D' ∨ mark = 'd')
      (hdigits : Text.natural? UInt64.size digits = some count)
      (hdays : days.nanos = count * 86400 * 1_000_000_000) : Days (digits ++ [mark]) days

/-- A period of which the days and the first components are out of range. -/
inductive TooLong : List Char → Prop
  | intro {start mark : Char} {date time rest : List Char} {days : Duration}
      {parts : List Duration} (hstart : start = 'P' ∨ start = 'p')
      (hmark : mark = 'T' ∨ mark = 't') (hdate : Days date days)
      (htime : Components time parts rest)
      (hsum : limit ≤ days.nanos + (parts.map nanos).sum) :
      TooLong (start :: (date ++ mark :: time))

theorem ofNanos?_eq_none_iff {n : Nat} : ofNanos? n = none ↔ limit ≤ n := by
  unfold ofNanos?
  split
  · next h => simpa using h
  · next h => simpa using h

theorem add?_eq_none_iff {a b : Duration} : a.add? b = none ↔ limit ≤ a.nanos + b.nanos :=
  ofNanos?_eq_none_iff

theorem add?_eq_some_iff {a b total : Duration} :
    a.add? b = some total ↔ total.nanos = a.nanos + b.nanos :=
  ofNanos?_eq_some_iff

/-! ## Units and components -/

theorem unitSeconds?_eq_some_iff {unit : Char} {factor : Nat} :
    unitSeconds? unit = some factor ↔ UnitOf unit factor := by
  have hhours : unit.toUpper = 'H' ↔ unit = 'H' ∨ unit = 'h' :=
    Text.toUpper_eq_iff (by decide) (by decide)
  have hminutes : unit.toUpper = 'M' ↔ unit = 'M' ∨ unit = 'm' :=
    Text.toUpper_eq_iff (by decide) (by decide)
  have hseconds : unit.toUpper = 'S' ↔ unit = 'S' ∨ unit = 's' :=
    Text.toUpper_eq_iff (by decide) (by decide)
  constructor
  · intro h
    unfold unitSeconds? at h
    split at h <;> cases h
    · next hunit => exact .hours (hhours.1 hunit)
    · next hunit => exact .minutes (hminutes.1 hunit)
    · next hunit => exact .seconds (hseconds.1 hunit)
  · intro h
    cases h with
    | hours h =>
        rw [unitSeconds?, hhours.2 h]
        rfl
    | minutes h =>
        rw [unitSeconds?, hminutes.2 h]
        rfl
    | seconds h =>
        rw [unitSeconds?, hseconds.2 h]
        rfl

theorem UnitOf.ne_zero {unit : Char} {factor : Nat} (h : UnitOf unit factor) : factor ≠ 0 := by
  cases h <;> decide

theorem isAlpha_of_unitSeconds? {unit : Char} {seconds : Nat}
    (h : unitSeconds? unit = some seconds) : unit.isAlpha = true := by
  cases unitSeconds?_eq_some_iff.1 h with
  | hours hunit | minutes hunit | seconds hunit =>
      rcases hunit with rfl | rfl <;> decide

theorem isAlpha_of_component? {number : List Char} {unit : Char} {part : Duration}
    (h : component? number unit = some part) : unit.isAlpha = true := by
  simp only [component?, Option.bind_eq_bind, Option.bind_eq_some_iff] at h
  obtain ⟨_, -, _, hunit, -⟩ := h
  exact isAlpha_of_unitSeconds? hunit

/-- A number without letters and the letter behind it are cut off the text. -/
theorem number_iff {number s rest : List Char} {unit : Char} :
    s.takeWhile (fun c => !c.isAlpha) = number ∧ s.dropWhile (fun c => !c.isAlpha) = unit :: rest ↔
      s = number ++ unit :: rest ∧ (∀ c ∈ number, c.isAlpha = false) ∧ unit.isAlpha = true := by
  rw [Text.takeWhile_dropWhile_eq_iff]
  simp

theorem addComponents_nil (total : Duration) : addComponents total [] = .ok total := by
  rw [addComponents]
  rfl

theorem addComponents_cons {number : List Char} {unit : Char}
    (hnumber : ∀ c ∈ number, c.isAlpha = false) {part : Duration}
    (hpart : component? number unit = some part) (total : Duration) (s : List Char) :
    addComponents total (number ++ unit :: s) =
      (total.add? part).elim (.error .overflow) fun next => addComponents next s := by
  obtain ⟨htake, hdrop⟩ := number_iff.2 ⟨rfl, hnumber, isAlpha_of_component? hpart⟩
  rw [addComponents]
  split
  · next h =>
    rw [hdrop] at h
    cases h
  · next unit' rest h =>
    rw [hdrop, List.cons.injEq] at h
    obtain ⟨rfl, rfl⟩ := h
    simp only [htake, hpart]
    cases total.add? part <;> rfl

theorem Components.addComponents_eq {s rest : List Char} {parts : List Duration}
    (h : Components s parts rest) {total : Duration}
    (hsum : limit ≤ total.nanos + (parts.map nanos).sum) :
    addComponents total s = .error .overflow := by
  induction h generalizing total with
  | nil rest => exact absurd total.nanos_lt (Nat.not_lt.2 hsum)
  | @cons number s rest unit part parts hnumber hpart hrest ih =>
      rw [addComponents_cons hnumber hpart]
      cases hadd : total.add? part with
      | none => rfl
      | some next =>
          apply ih
          rw [add?_eq_some_iff.1 hadd]
          rw [List.map_cons, List.sum_cons] at hsum
          omega

/-- Adding components fails for the sum exactly where the first of them take it
to the limit. -/
theorem addComponents_eq_overflow_iff {total : Duration} {s : List Char} :
    addComponents total s = .error .overflow ↔
      ∃ parts rest, Components s parts rest ∧ limit ≤ total.nanos + (parts.map nanos).sum := by
  constructor
  · intro h
    fun_induction addComponents total s with
    | case1 | case2 | case3 => cases h
    | case4 total s unit rest hdrop _ part hpart hadd =>
        obtain ⟨hs, hnumber, -⟩ := number_iff.1 ⟨rfl, hdrop⟩
        refine ⟨[part], rest, ?_, ?_⟩
        · rw [hs]
          exact .cons hnumber hpart (.nil rest)
        · simpa using add?_eq_none_iff.1 hadd
    | case5 total s unit rest hdrop _ part hpart next hadd ih =>
        obtain ⟨hs, hnumber, -⟩ := number_iff.1 ⟨rfl, hdrop⟩
        obtain ⟨parts, left, hparts, hsum⟩ := ih h
        refine ⟨part :: parts, left, ?_, ?_⟩
        · rw [hs]
          exact .cons hnumber hpart hparts
        · rw [add?_eq_some_iff.1 hadd] at hsum
          rw [List.map_cons, List.sum_cons]
          omega
  · rintro ⟨parts, rest, hparts, hsum⟩
    exact hparts.addComponents_eq hsum

/-! ## Days -/

theorem ofDays?_eq_some_iff {s : List Char} {days : Duration} :
    ofDays? s = some days ↔ s ≠ [] ∧ Days s days := by
  constructor
  · intro h
    simp only [ofDays?, Option.bind_eq_bind, Option.bind_eq_some_iff, Option.or_eq_some_iff] at h
    obtain ⟨digits, hmark, count, hdigits, hdays⟩ := h
    have hcount := ofNanos?_eq_some_iff.1 hdays
    rcases hmark with hlast | ⟨-, hlast⟩
    · rw [Text.eq_concat_of_dropLast? hlast]
      exact ⟨by simp, .counted (.inl rfl) hdigits hcount⟩
    · rw [Text.eq_concat_of_dropLast? hlast]
      exact ⟨by simp, .counted (.inr rfl) hdigits hcount⟩
  · rintro ⟨hne, h⟩
    cases h with
    | none => contradiction
    | counted hmark hdigits hdays =>
        simp only [ofDays?, Option.bind_eq_bind, Option.bind_eq_some_iff, Option.or_eq_some_iff]
        refine ⟨_, ?_, _, hdigits, ofNanos?_eq_some_iff.2 hdays⟩
        rcases hmark with rfl | rfl
        · exact .inl (Text.dropLast?_concat _ _)
        · exact .inr ⟨Text.dropLast?_concat_of_ne (by decide) _, Text.dropLast?_concat _ _⟩

theorem days_iff {s : List Char} {days : Duration} :
    (if s = [] then some zero else ofDays? s) = some days ↔ Days s days := by
  by_cases h : s = []
  · subst h
    rw [if_pos rfl, Option.some.injEq]
    constructor
    · rintro rfl
      exact .none
    · intro hdays
      generalize hs : ([] : List Char) = s at hdays
      cases hdays with
      | none => rfl
      | counted => simp at hs
  · rw [if_neg h, ofDays?_eq_some_iff]
    exact and_iff_right h

theorem mark_iff {c : Char} : (c != 'T' && c != 't') = false ↔ c = 'T' ∨ c = 't' := by
  rw [Bool.and_eq_false_iff, bne_eq_false_iff_eq, bne_eq_false_iff_eq]

/-- The mark of the time does not stand among the days. -/
theorem Days.ne_mark {s : List Char} {days : Duration} (h : Days s days) :
    ∀ c ∈ s, (c != 'T' && c != 't') = true := by
  cases h with
  | none => simp
  | @counted digits count mark days hmark hdigits hdays =>
      have hupper : 'T' ∉ digits := Text.notMem_of_natural? hdigits (by decide) (by decide)
      have hlower : 't' ∉ digits := Text.notMem_of_natural? hdigits (by decide) (by decide)
      intro c hc
      rw [Bool.and_eq_true, bne_iff_ne, bne_iff_ne]
      rcases List.mem_append.1 hc with hc | hc
      · constructor
        · rintro rfl
          exact hupper hc
        · rintro rfl
          exact hlower hc
      · obtain rfl := List.mem_singleton.1 hc
        rcases hmark with rfl | rfl <;> decide

/-! ## The whole period -/

theorem ofPeriod_append {date time : List Char} {mark : Char} {days : Duration}
    (hmark : mark = 'T' ∨ mark = 't') (hdate : Days date days) :
    ofPeriod (date ++ mark :: time) =
      if time = [] then .error .malformed else addComponents days time := by
  obtain ⟨htake, hdrop⟩ :=
    Text.takeWhile_dropWhile_eq_iff.2 ⟨rfl, hdate.ne_mark, mark_iff.2 hmark⟩
  rw [ofPeriod, htake, hdrop, days_iff.2 hdate]
  simp

/-- A period fails for the sum only by its components. -/
theorem exists_of_ofPeriod {s : List Char} (h : ofPeriod s = .error .overflow) :
    ∃ date mark time days, s = date ++ mark :: time ∧ (mark = 'T' ∨ mark = 't') ∧
      Days date days ∧ addComponents days time = .error .overflow := by
  unfold ofPeriod at h
  dsimp only at h
  split at h
  · cases h
  · split at h
    · cases h
    · next days hdays =>
      cases htime : s.dropWhile fun c => c != 'T' && c != 't' with
      | nil =>
          rw [htime, List.drop_nil, addComponents_nil] at h
          cases h
      | cons mark time =>
          obtain ⟨hs, -, hstop⟩ := Text.takeWhile_dropWhile_eq_iff.1 ⟨rfl, htime⟩
          rw [htime] at h
          exact ⟨_, mark, time, days, hs, mark_iff.1 hstop, days_iff.1 hdays, h⟩

theorem natural?_start_eq_none {start : Char} (hstart : start = 'P' ∨ start = 'p') (bound : Nat)
    (rest : List Char) : Text.natural? bound (start :: rest) = none := by
  rw [Option.eq_none_iff_forall_ne_some]
  intro n hn
  have hother : start.isDigit = false ∧ start ≠ '+' := by
    rcases hstart with rfl | rfl <;> decide
  exact Text.notMem_of_natural? hn hother.1 hother.2 List.mem_cons_self

/-- A text fails for the sum of its parts exactly if it is a period of which the
days and the first components are out of range. -/
theorem ofText_eq_overflow_iff {s : List Char} :
    ofText s = .error .overflow ↔ TooLong (Text.trim s) := by
  rw [ofText]
  generalize Text.trim s = s
  constructor
  · intro h
    split at h
    · cases h
    · split at h
      · next start rest =>
        split at h
        · next hstart =>
          obtain ⟨date, mark, time, days, rfl, hmark, hdate, hadd⟩ := exists_of_ofPeriod h
          obtain ⟨parts, left, htime, hsum⟩ := addComponents_eq_overflow_iff.1 hadd
          exact .intro hstart hmark hdate htime hsum
        · cases h
      · cases h
  · intro h
    cases h with
    | @intro start mark date time rest days parts hstart hmark hdate htime hsum =>
        have hadd := addComponents_eq_overflow_iff.2 ⟨parts, rest, htime, hsum⟩
        have hne : time ≠ [] := by
          rintro rfl
          rw [addComponents_nil] at hadd
          cases hadd
        simp only [natural?_start_eq_none hstart]
        rw [if_pos hstart, ofPeriod_append hmark hdate, if_neg hne, hadd]

end Time.Duration

end DataBlock
