import DataBlock.Power
import DataBlock.Time.Date
import Mathlib.Order.Monotone.Basic
/-!
# Counting days

The days from the epoch to a date are counted with the rule for leap years in
closed form.  `Date.ofEpochDay?`, which takes whole years and months off such a
count, finds the date again, and it finds one for every count of 16 bits.
-/

namespace DataBlock.Time

/-- Days of the years from year one to the year before. -/
def daysBeforeYear (year : Int) : Int :=
  365 * (year - 1) + (year - 1) / 4 - (year - 1) / 100 + (year - 1) / 400

def daysBeforeMonth (year : Int) (month : Nat) : Nat :=
  ((monthLengths year).take (month - 1)).sum

theorem daysBeforeYear_succ (year : Int) :
    daysBeforeYear (year + 1) = daysBeforeYear year + yearLength year := by
  simp only [daysBeforeYear, yearLength, isLeap, Bool.and_eq_true, Bool.or_eq_true,
    decide_eq_true_eq, ne_eq]
  split <;> omega

theorem daysBeforeYear_mono {a b : Int} (h : a ≤ b) : daysBeforeYear a ≤ daysBeforeYear b := by
  unfold daysBeforeYear
  omega

theorem sum_monthLengths (year : Int) : (monthLengths year).sum = yearLength year := by
  unfold monthLengths yearLength
  split <;> rfl

theorem daysBeforeMonth_succ (year : Int) {month : Nat} (h : 0 < month) :
    daysBeforeMonth year (month + 1) = daysBeforeMonth year month + monthLength year month := by
  cases month with
  | zero => omega
  | succ month =>
      simp only [daysBeforeMonth, monthLength, Nat.add_sub_cancel, Nat.succ_ne_zero, if_false]
      rw [List.take_add_one, List.sum_append]
      cases (monthLengths year)[month]? <;> simp

theorem daysBeforeMonth_mono (year : Int) : Monotone (daysBeforeMonth year) := by
  apply monotone_nat_of_le_succ
  intro month
  rcases Nat.eq_zero_or_pos month with hzero | hpos
  · rw [hzero]
    exact Nat.zero_le _
  · rw [daysBeforeMonth_succ year hpos]
    exact Nat.le_add_right _ _

theorem daysBeforeMonth_le (year : Int) {month : Nat} (h : month ≤ 13) :
    daysBeforeMonth year month ≤ yearLength year := by
  calc
    daysBeforeMonth year month ≤ daysBeforeMonth year 13 := daysBeforeMonth_mono year h
    _ = yearLength year := sum_monthLengths year

namespace Date

def dayOfYear (d : Date) : Nat := daysBeforeMonth d.year d.month + (d.day - 1)

/-- Days from the epoch to the date, less than zero before the epoch. -/
def sinceEpoch (d : Date) : Int :=
  daysBeforeYear d.year - daysBeforeYear epoch.year + d.dayOfYear

instance : LT Date where
  lt a b := a.year < b.year ∨
    a.year = b.year ∧ (a.month < b.month ∨ a.month = b.month ∧ a.day < b.day)

instance : LE Date where
  le a b := a < b ∨ a = b

theorem lt_trichotomy (a b : Date) : a < b ∨ a = b ∨ b < a := by
  rcases a with ⟨year, month, day, _, _⟩
  rcases b with ⟨year', month', day', _, _⟩
  change (year < year' ∨ year = year' ∧ (month < month' ∨ month = month' ∧ day < day')) ∨ _ ∨
    (year' < year ∨ year' = year ∧ (month' < month ∨ month' = month ∧ day' < day))
  rw [Date.mk.injEq]
  omega

theorem month_mem (d : Date) : 1 ≤ d.month ∧ d.month ≤ 12 := by
  rcases d with ⟨year, month, day, _, hday⟩
  have hlength : monthLength year month ≠ 0 := by omega
  unfold monthLength at hlength
  split at hlength
  · contradiction
  · next hmonth =>
    have hsome : month - 1 < (monthLengths year).length := by
      by_contra hlarge
      rw [List.getElem?_eq_none (Nat.le_of_not_lt hlarge)] at hlength
      exact hlength rfl
    change month - 1 < 12 at hsome
    change 1 ≤ month ∧ month ≤ 12
    omega

theorem dayOfYear_lt (d : Date) : d.dayOfYear < yearLength d.year := by
  have hmonth := d.month_mem
  have hday := d.day_mem
  have hnext := daysBeforeMonth_succ d.year hmonth.1
  have hyear : daysBeforeMonth d.year (d.month + 1) ≤ yearLength d.year :=
    daysBeforeMonth_le d.year (by omega)
  unfold dayOfYear
  omega

theorem sinceEpoch_lt {a b : Date} (h : a < b) : a.sinceEpoch < b.sinceEpoch := by
  rcases h with hyear | ⟨hyear, hmonth | ⟨hmonth, hday⟩⟩
  · have hnext : daysBeforeYear (a.year + 1) ≤ daysBeforeYear b.year := daysBeforeYear_mono hyear
    have hlast := a.dayOfYear_lt
    rw [daysBeforeYear_succ] at hnext
    unfold sinceEpoch
    omega
  · have hnext : daysBeforeMonth b.year (a.month + 1) ≤ daysBeforeMonth b.year b.month :=
      daysBeforeMonth_mono b.year hmonth
    have hlast := a.day_mem
    rw [hyear] at hlast
    rw [daysBeforeMonth_succ b.year a.month_mem.1] at hnext
    simp only [sinceEpoch, dayOfYear, hyear]
    omega
  · have hfirst := a.day_mem
    simp only [sinceEpoch, dayOfYear, hyear, hmonth]
    omega

theorem sinceEpoch_le {a b : Date} (h : a ≤ b) : a.sinceEpoch ≤ b.sinceEpoch := by
  rcases h with hlt | heq
  · exact Int.le_of_lt (sinceEpoch_lt hlt)
  · rw [heq]

theorem sinceEpoch_injective {a b : Date} (h : a.sinceEpoch = b.sinceEpoch) : a = b := by
  rcases lt_trichotomy a b with hlt | heq | hgt
  · have hdays := sinceEpoch_lt hlt
    omega
  · exact heq
  · have hdays := sinceEpoch_lt hgt
    omega

/-! ## Finding the date of a count -/

theorem yearOfDay_spec (year : Int) (n : Nat) :
    daysBeforeYear (yearOfDay year n).1 + (yearOfDay year n).2 = daysBeforeYear year + n ∧
    (yearOfDay year n).2 < yearLength (yearOfDay year n).1 ∧
    year ≤ (yearOfDay year n).1 ∧ (yearOfDay year n).1 ≤ year + n := by
  fun_induction yearOfDay year n with
  | case1 year n hlt =>
      refine ⟨rfl, hlt, ?_, ?_⟩ <;> omega
  | case2 year n hge ih =>
      have hpos := yearLength_pos year
      rw [daysBeforeYear_succ] at ih
      omega

theorem monthOfDay_spec (month : Nat) {n : Nat} {lengths : List Nat} (h : n < lengths.sum) :
    ∃ i r, monthOfDay month n lengths = (month + i, r) ∧
      (lengths.take i).sum + r = n ∧ r < lengths[i]?.getD 0 := by
  induction lengths generalizing month n with
  | nil => simp at h
  | cons length lengths ih =>
      rw [List.sum_cons] at h
      by_cases hlt : n < length
      · exact ⟨0, n, by simp [monthOfDay, hlt], by simp, by simpa using hlt⟩
      · have hrest : n - length < lengths.sum := by omega
        rcases ih (month + 1) hrest with ⟨i, r, hfound, hsum, hr⟩
        refine ⟨i + 1, r, ?_, ?_, ?_⟩
        · rw [monthOfDay, if_neg hlt, hfound, Nat.add_assoc, Nat.add_comm 1]
        · rw [List.take_succ_cons, List.sum_cons]
          omega
        · simpa using hr

/-- As long as the year is one of the calendar, the date of a count is found. -/
theorem exists_ofEpochDay? {n : Nat} (h : n ≤ 65535) :
    ∃ d, ofEpochDay? n = some d ∧ d.sinceEpoch = n := by
  rcases hyear : yearOfDay 1990 n with ⟨year, k⟩
  have hspec := yearOfDay_spec 1990 n
  rw [hyear] at hspec
  rcases hspec with ⟨hdays, hk, hfirst, hlast⟩
  simp only at hdays hk hfirst hlast
  have hk' : k < (monthLengths year).sum := by rwa [sum_monthLengths]
  rcases monthOfDay_spec 1 hk' with ⟨i, r, hmonth, hsum, hr⟩
  have hmonthLength : monthLength year (1 + i) = (monthLengths year)[i]?.getD 0 := by
    rw [monthLength, if_neg (by omega), Nat.add_sub_cancel_left]
  have hyears : -262143 ≤ year ∧ year ≤ 262142 := by omega
  have hday : 1 ≤ r + 1 ∧ r + 1 ≤ monthLength year (1 + i) := by omega
  refine ⟨⟨year, 1 + i, r + 1, hyears, hday⟩, ?_, ?_⟩
  · simp only [ofEpochDay?, hyear, hmonth, ofYmd?]
    rw [dif_pos hyears, dif_pos hday]
  · change daysBeforeYear year - daysBeforeYear 1990 +
      (((monthLengths year).take (1 + i - 1)).sum + (r + 1 - 1) : Nat) = (n : Int)
    rw [Nat.add_sub_cancel_left, Nat.add_sub_cancel]
    omega

theorem ofEpochDay?_of_sinceEpoch {d : Date} {n : Nat} (h : n ≤ 65535) (hd : d.sinceEpoch = n) :
    ofEpochDay? n = some d := by
  rcases exists_ofEpochDay? h with ⟨found, hfound, hdays⟩
  have heq : found = d := sinceEpoch_injective (by rw [hdays, hd])
  rw [hfound, heq]

def last : Date := ⟨2169, 6, 6, by decide, by decide⟩

theorem sinceEpoch_epoch : epoch.sinceEpoch = 0 := rfl

theorem sinceEpoch_last : last.sinceEpoch = 65535 := rfl

end Date

end DataBlock.Time
