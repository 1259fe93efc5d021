import DataBlock.Proofs.Binary.Products
import DataBlock.Proofs.Time.Periods
import Mathlib.Data.List.Perm.Basic
/-!
# Spellings of durations

A text is read as a duration exactly if it spells one: a number of milliseconds,
or a period whose days and components are added up.  As a sum has no order, the
components can be put in any other; and the loop that adds them ends, since each
pass takes the letter of a unit off the text.
-/

namespace DataBlock

namespace Time.Duration

open Binary (Double)

theorem isAmount_of_ofSeconds? {x : Double} {d : Duration} (h : ofSeconds? x = some d) :
    x.IsAmount := by
  unfold ofSeconds? at h
  split at h
  · next negative units hx =>
    split at h
    · cases h
    · next hsign =>
      refine ⟨negative, units, hx, ?_⟩
      intro hnegative
      by_contra hunits
      exact hsign ⟨hnegative, hunits⟩
  · cases h

/-! ## Components as they are written -/

/-- A component as it is written: what stands for the number, and the letter
behind it. -/
structure Component where
  number : List Char
  unit : Char
  number_letterless : ∀ c ∈ number, c.isAlpha = false
  unit_letter : unit.isAlpha = true
  deriving DecidableEq

namespace Component

def text (c : Component) : List Char := c.number ++ [c.unit]

def textOf (cs : List Component) : List Char := cs.flatMap text

/-- The number is finite and not below zero, and times its unit it is the duration. -/
def Lasts (c : Component) (part : Duration) : Prop :=
  ∃ x factor, Double.ofText? c.number = some x ∧ x.IsAmount ∧ UnitOf c.unit factor ∧
    ofSeconds? (x.scale factor) = some part

theorem append_unit_cons (c : Component) (rest : List Char) :
    c.number ++ c.unit :: rest = c.text ++ rest := by
  simp [text]

end Component

/-- The time of a period: nothing, or the mark `T` and one component or more. -/
inductive TimeOf : List Char → List Duration → Prop
  | none : TimeOf [] []
  | counted {mark : Char} {cs : List Component} {parts : List Duration}
      (hmark : mark = 'T' ∨ mark = 't') (hne : cs ≠ [])
      (hparts : List.Forall₂ Component.Lasts cs parts) :
      TimeOf (mark :: Component.textOf cs) parts

/-- The texts of a duration: a number of milliseconds, or a period with days, a
time or both, which lasts as long as its parts together. -/
inductive Spelling : List Char → Duration → Prop
  | millis {s : List Char} {count : Nat} {d : Duration}
      (hcount : Text.natural? UInt64.size s = some count) (hd : d.nanos = count * 1_000_000) :
      Spelling s d
  | period {start : Char} {date time : List Char} {days d : Duration} {parts : List Duration}
      (hstart : start = 'P' ∨ start = 'p') (hdate : Days date days) (htime : TimeOf time parts)
      (hsome : date ≠ [] ∨ time ≠ []) (hd : d.nanos = days.nanos + (parts.map nanos).sum) :
      Spelling (start :: (date ++ time)) d

theorem component?_eq_some_iff {c : Component} {part : Duration} :
    component? c.number c.unit = some part ↔ c.Lasts part := by
  simp only [component?, Option.bind_eq_bind, Option.bind_eq_some_iff, unitSeconds?_eq_some_iff]
  constructor
  · rintro ⟨x, hx, factor, hunit, hpart⟩
    have hamount := Double.isAmount_of_scale hunit.ne_zero (isAmount_of_ofSeconds? hpart)
    exact ⟨x, factor, hx, hamount, hunit, hpart⟩
  · rintro ⟨x, factor, hx, -, hunit, hpart⟩
    exact ⟨x, hx, factor, hunit, hpart⟩

/-- What is read as components to the end is a text of components. -/
theorem components_iff {s : List Char} {parts : List Duration} :
    Components s parts [] ↔
      ∃ cs, s = Component.textOf cs ∧ List.Forall₂ Component.Lasts cs parts := by
  constructor
  · intro h
    generalize hend : ([] : List Char) = rest at h
    induction h with
    | nil rest =>
        subst hend
        exact ⟨[], rfl, .nil⟩
    | @cons number s rest unit part parts hnumber hpart hrest ih =>
        obtain ⟨cs, rfl, hparts⟩ := ih hend
        let c : Component := ⟨number, unit, hnumber, isAlpha_of_component? hpart⟩
        refine ⟨c :: cs, ?_, .cons (component?_eq_some_iff.1 hpart) hparts⟩
        exact c.append_unit_cons _
  · rintro ⟨cs, rfl, hparts⟩
    induction hparts with
    | nil => exact .nil []
    | @cons c part cs parts hpart hparts ih =>
        have htext : Component.textOf (c :: cs) = c.number ++ c.unit :: Component.textOf cs :=
          (c.append_unit_cons _).symm
        rw [htext]
        exact .cons c.number_letterless (component?_eq_some_iff.2 hpart) ih

/-- Components are added up if they take up the whole text and their sum is in range. -/
theorem addComponents_eq_ok_iff {total d : Duration} {s : List Char} :
    addComponents total s = .ok d ↔
      ∃ parts, Components s parts [] ∧ d.nanos = total.nanos + (parts.map nanos).sum := by
  constructor
  · intro h
    fun_induction addComponents total s with
    | case1 total =>
        cases h
        exact ⟨[], .nil [], by simp⟩
    | case2 | case3 | case4 => cases h
    | case5 total s unit rest hdrop _ part hpart next hadd ih =>
        obtain ⟨hs, hnumber, -⟩ := number_iff.1 ⟨rfl, hdrop⟩
        obtain ⟨parts, hparts, hsum⟩ := ih h
        refine ⟨part :: parts, ?_, ?_⟩
        · rw [hs]
          exact .cons hnumber hpart hparts
        · rw [hsum, add?_eq_some_iff.1 hadd, List.map_cons, List.sum_cons, Nat.add_assoc]
  · rintro ⟨parts, hparts, hsum⟩
    generalize hend : ([] : List Char) = rest at hparts
    induction hparts generalizing total with
    | nil rest =>
        subst hend
        rw [addComponents_nil, Except.ok.injEq]
        exact eq_of_nanos_eq hsum.symm
    | @cons number s rest unit part parts hnumber hpart hrest ih =>
        rw [List.map_cons, List.sum_cons, ← Nat.add_assoc] at hsum
        have hlt : total.nanos + part.nanos < limit := by
          have hd : d.nanos < limit := d.nanos_lt
          omega
        have hadd : total.add? part = some ⟨total.nanos + part.nanos, hlt⟩ := add?_eq_some_iff.2 rfl
        rw [addComponents_cons hnumber hpart, hadd]
        exact ih hsum hend

/-! ## Periods -/

theorem ofPeriod_of_days {date : List Char} {days : Duration} (hdate : Days date days)
    (hne : date ≠ []) : ofPeriod date = .ok days := by
  have htake : date.takeWhile (fun c => c != 'T' && c != 't') = date :=
    List.takeWhile_eq_self_iff.2 hdate.ne_mark
  have hdrop : date.dropWhile (fun c => c != 'T' && c != 't') = [] :=
    List.dropWhile_eq_nil_iff.2 hdate.ne_mark
  rw [ofPeriod, htake, hdrop, days_iff.2 hdate]
  simp [hne, addComponents_nil]

theorem ofPeriod_eq_ok_iff {s : List Char} {d : Duration} :
    ofPeriod s = .ok d ↔
      ∃ date time days parts, s = date ++ time ∧ Days date days ∧ TimeOf time parts ∧
        (date ≠ [] ∨ time ≠ []) ∧ d.nanos = days.nanos + (parts.map nanos).sum := by
  constructor
  · intro h
    unfold ofPeriod at h
    dsimp only at h
    split at h
    · cases h
    · next hpresent =>
      split at h
      · cases h
      · next days hdays =>
        have hdate := days_iff.1 hdays
        have hs := List.takeWhile_append_dropWhile (p := fun c => c != 'T' && c != 't') (l := s)
        cases htime : s.dropWhile fun c => c != 'T' && c != 't' with
        | nil =>
            rw [htime] at h hpresent hs
            rw [List.drop_nil, addComponents_nil, Except.ok.injEq] at h
            refine ⟨_, [], days, [], hs.symm, hdate, .none, .inl ?_, ?_⟩
            · simpa using hpresent
            · simp [h]
        | cons mark rest =>
            obtain ⟨-, -, hmark⟩ := Text.takeWhile_dropWhile_eq_iff.1 ⟨rfl, htime⟩
            rw [htime] at h hpresent hs
            rw [List.drop_one, List.tail_cons] at h
            obtain ⟨parts, hparts, hsum⟩ := addComponents_eq_ok_iff.1 h
            obtain ⟨cs, rfl, hlasts⟩ := components_iff.1 hparts
            refine ⟨_, _, days, parts, hs.symm, hdate, .counted (mark_iff.1 hmark) ?_ hlasts,
              .inr (List.cons_ne_nil _ _), hsum⟩
            rintro rfl
            simp [Component.textOf] at hpresent
  · rintro ⟨date, time, days, parts, rfl, hdate, htime, hsome, hsum⟩
    cases htime with
    | none =>
        have hne : date ≠ [] := by simpa using hsome
        have heq : d = days := eq_of_nanos_eq (by simpa using hsum)
        rw [List.append_nil, heq, ofPeriod_of_days hdate hne]
    | @counted mark cs parts hmark hne hparts =>
        have htext : Component.textOf cs ≠ [] := by
          obtain ⟨c, rest, rfl⟩ := List.exists_cons_of_ne_nil hne
          simp [Component.textOf, Component.text]
        rw [ofPeriod_append hmark hdate, if_neg htext]
        exact addComponents_eq_ok_iff.2 ⟨parts, components_iff.2 ⟨cs, rfl, hparts⟩, hsum⟩

/-! ## Whole texts -/

/-- A text is read as a duration exactly if it is one of its spellings. -/
theorem ofText_eq_ok_iff {s : List Char} {d : Duration} :
    ofText s = .ok d ↔ Spelling (Text.trim s) d := by
  rw [ofText]
  generalize Text.trim s = s
  constructor
  · intro h
    split at h
    · next count hcount =>
      obtain ⟨-, -, -, hlt⟩ := Text.natural?_eq_some_iff.1 hcount
      rw [← Except.ok.inj h]
      exact .millis hcount (nanos_ofMillis_ofNat hlt)
    · split at h
      · next start rest =>
        split at h
        · next hstart =>
          obtain ⟨date, time, days, parts, rfl, hdate, htime, hsome, hsum⟩ :=
            ofPeriod_eq_ok_iff.1 h
          exact .period hstart hdate htime hsome hsum
        · cases h
      · cases h
  · intro h
    cases h with
    | millis hcount hd =>
        obtain ⟨-, -, -, hlt⟩ := Text.natural?_eq_some_iff.1 hcount
        simp only [hcount]
        rw [Except.ok.injEq]
        exact eq_of_nanos_eq (by rw [hd, nanos_ofMillis_ofNat hlt])
    | period hstart hdate htime hsome hd =>
        simp only [natural?_start_eq_none hstart]
        rw [if_pos hstart]
        exact ofPeriod_eq_ok_iff.2 ⟨_, _, _, _, rfl, hdate, htime, hsome, hd⟩

/-! ## The order of components -/

/-- A period with components, between blanks: the days, and the components behind
the mark `T`. -/
structure Consists (s date : List Char) (cs : List Component) : Prop where
  date_free : ∀ c ∈ date, (c != 'T' && c != 't') = true
  trim_eq : ∃ start mark, (start = 'P' ∨ start = 'p') ∧ (mark = 'T' ∨ mark = 't') ∧
    Text.trim s = start :: (date ++ mark :: Component.textOf cs)

/-- A text is that of one list of components at most. -/
theorem Component.textOf_injective {cs cs' : List Component} (h : textOf cs = textOf cs') :
    cs = cs' := by
  induction cs generalizing cs' with
  | nil =>
      cases cs' with
      | nil => rfl
      | cons c cs' => simp [textOf, text] at h
  | cons c cs ih =>
      cases cs' with
      | nil => simp [textOf, text] at h
      | cons c' cs' =>
          rcases c with ⟨number, unit, hnumber, hunit⟩
          rcases c' with ⟨number', unit', hnumber', hunit'⟩
          have hcut : number ++ unit :: textOf cs = number' ++ unit' :: textOf cs' := by
            simpa [textOf, text] using h
          obtain ⟨htake, hdrop⟩ := number_iff.2 ⟨hcut, hnumber', hunit'⟩
          obtain ⟨htake', hdrop'⟩ := number_iff.2 ⟨rfl, hnumber, hunit⟩
          obtain rfl : number = number' := htake'.symm.trans htake
          obtain ⟨rfl, hrest⟩ := List.cons.inj (hdrop'.symm.trans hdrop)
          rw [ih hrest]

theorem Consists.spelling_iff {s date : List Char} {cs : List Component} (h : Consists s date cs)
    {d : Duration} :
    Spelling (Text.trim s) d ↔ cs ≠ [] ∧ ∃ days parts, Days date days ∧
      List.Forall₂ Component.Lasts cs parts ∧ d.nanos = days.nanos + (parts.map nanos).sum := by
  obtain ⟨start, mark, hstart, hmark, htrim⟩ := h.trim_eq
  rw [htrim]
  constructor
  · intro hspelling
    generalize hs : start :: (date ++ mark :: Component.textOf cs) = s at hspelling
    cases hspelling with
    | millis hcount hd =>
        rw [← hs, natural?_start_eq_none hstart] at hcount
        cases hcount
    | @period start' date' time days d parts hstart' hdate htime hsome hd =>
        -- the days end at the first mark, so both texts are cut alike
        obtain ⟨htake, hdrop⟩ :=
          Text.takeWhile_dropWhile_eq_iff.2 ⟨rfl, h.date_free, mark_iff.2 hmark⟩
        rw [(List.cons.inj hs).2] at htake hdrop
        cases htime with
        | none =>
            rw [List.append_nil, List.dropWhile_eq_nil_iff.2 hdate.ne_mark] at hdrop
            cases hdrop
        | @counted mark' cs' parts hmark' hne hparts =>
            obtain ⟨htake', hdrop'⟩ :=
              Text.takeWhile_dropWhile_eq_iff.2 ⟨rfl, hdate.ne_mark, mark_iff.2 hmark'⟩
            obtain rfl : date' = date := htake'.symm.trans htake
            have htext := (List.cons.inj (hdrop'.symm.trans hdrop)).2
            obtain rfl := Component.textOf_injective htext
            exact ⟨hne, days, parts, hdate, hparts, hd⟩
  · rintro ⟨hne, days, parts, hdate, hparts, hd⟩
    exact .period hstart hdate (.counted hmark hne hparts) (.inr (List.cons_ne_nil _ _)) hd

/-- The parts of reordered components are reordered, and their sum stays. -/
theorem forall₂_lasts_perm {cs cs' : List Component} (hperm : cs.Perm cs') {parts : List Duration}
    (h : List.Forall₂ Component.Lasts cs parts) :
    ∃ parts', List.Forall₂ Component.Lasts cs' parts' ∧
      (parts'.map nanos).sum = (parts.map nanos).sum := by
  obtain ⟨parts', hparts', hsame⟩ := List.perm_comp_forall₂ hperm.symm h
  exact ⟨parts', hparts', (hsame.map nanos).sum_nat⟩

theorem Consists.spelling_perm {s t date : List Char} {cs cs' : List Component}
    (hs : Consists s date cs) (ht : Consists t date cs') (hperm : cs.Perm cs') {d : Duration}
    (h : Spelling (Text.trim s) d) : Spelling (Text.trim t) d := by
  obtain ⟨hne, days, parts, hdate, hparts, hd⟩ := hs.spelling_iff.1 h
  obtain ⟨parts', hparts', hsum⟩ := forall₂_lasts_perm hperm hparts
  refine ht.spelling_iff.2 ⟨?_, days, parts', hdate, hparts', ?_⟩
  · rintro rfl
    exact hne hperm.eq_nil
  · rw [hd, hsum]

/-- Two texts that are read as the same durations and do not fail for a sum have
the same result. -/
theorem eq_of_ok_iff {a b : Except Fault Duration} (h : ∀ d, a = .ok d ↔ b = .ok d)
    (ha : a ≠ .error .overflow) (hb : b ≠ .error .overflow) : a = b := by
  rcases a with (_ | _) | d
  · rcases b with (_ | _) | d
    · rfl
    · exact absurd rfl hb
    · exact (h d).2 rfl
  · exact absurd rfl ha
  · exact ((h d).1 rfl).symm

/-! ## Passes over the components -/

/-- One pass over the components of a text: the first is taken off the text and
added to the total. -/
inductive Pass : Duration × List Char → Duration × List Char → Prop
  | mk {total next part : Duration} {c : Component} {rest : List Char} (hpart : c.Lasts part)
      (hadd : total.add? part = some next) : Pass (total, c.text ++ rest) (next, rest)

theorem Pass.addComponents_eq {before after : Duration × List Char} (h : Pass before after) :
    addComponents before.1 before.2 = addComponents after.1 after.2 := by
  cases h with
  | @mk total next part c rest hpart hadd =>
      rw [← c.append_unit_cons, addComponents_cons c.number_letterless
        (component?_eq_some_iff.2 hpart), hadd]
      rfl

/-- Each pass takes the letter of a unit off the text. -/
theorem Pass.length_lt {before after : Duration × List Char} (h : Pass before after) :
    after.2.length < before.2.length := by
  cases h with
  | mk =>
      simp [Component.text]
      omega

theorem wellFounded_pass : WellFounded fun after before => Pass before after :=
  Subrelation.wf Pass.length_lt (measure fun state : Duration × List Char => state.2.length).wf

/-! ## What is read -/

/-- A text is read as a duration exactly if it spells it: a number of milliseconds,
or a period whose days and components, of finite numbers from zero on, are added
up.  It fails for the sum exactly if the parts up to some point are out of range,
and any other text is refused.  Reordered components are read alike, as long as no
sum is out of range.  The loop over the components ends: its result stays the same
from pass to pass, and there is no endless row of passes. -/
theorem ofText_accepts_spellings (s : List Char) :
    (∀ d, ofText s = .ok d ↔ Spelling (Text.trim s) d) ∧
    (ofText s = .error .overflow ↔ TooLong (Text.trim s)) ∧
    (ofText s = .error .malformed ↔
      ¬ TooLong (Text.trim s) ∧ ∀ d, ¬ Spelling (Text.trim s) d) ∧
    (∀ t date cs cs', Consists s date cs → Consists t date cs' → cs.Perm cs' →
      (∀ d, ofText s = .ok d ↔ ofText t = .ok d) ∧
      (¬ TooLong (Text.trim s) → ¬ TooLong (Text.trim t) → ofText s = ofText t)) ∧
    (∀ before after, Pass before after →
      addComponents before.1 before.2 = addComponents after.1 after.2) ∧
    WellFounded fun after before => Pass before after := by
  refine ⟨fun d => ofText_eq_ok_iff, ofText_eq_overflow_iff, ?_, ?_,
    fun before after h => h.addComponents_eq, wellFounded_pass⟩
  · rw [← ofText_eq_overflow_iff]
    simp only [← ofText_eq_ok_iff]
    rcases ofText s with (_ | _) | d <;> simp
  · intro t date cs cs' hs ht hperm
    have hsame : ∀ d, ofText s = .ok d ↔ ofText t = .ok d := by
      intro d
      rw [ofText_eq_ok_iff, ofText_eq_ok_iff]
      exact ⟨hs.spelling_perm ht hperm, ht.spelling_perm hs hperm.symm⟩
    refine ⟨hsame, ?_⟩
    rw [← ofText_eq_overflow_iff, ← ofText_eq_overflow_iff]
    exact eq_of_ok_iff hsame

/-- Two hours, three and a half seconds and four minutes. -/
def mixed : List Component :=
  [⟨['2'], 'H', by simp, by decide⟩, ⟨['3', '.', '5'], 's', by simp, by decide⟩,
    ⟨['4'], 'M', by simp, by decide⟩]

theorem ofText_mixed :
    ∃ d, ofText " P1dT2H3.5s4M\t".toList = .ok d ∧ d.nanos = 93_843_500_000_000 ∧
      ofText "p1dt4M3.5s2H".toList = .ok d := by
  have hread : ofText " P1dT2H3.5s4M\t".toList = .ok ⟨93_843_500_000_000, by decide⟩ := by
    decide +kernel
  have hs : Consists " P1dT2H3.5s4M\t".toList ['1', 'd'] mixed :=
    ⟨by simp, 'P', 'T', .inl rfl, .inl rfl, by decide +kernel⟩
  have ht : Consists "p1dt4M3.5s2H".toList ['1', 'd'] mixed.reverse :=
    ⟨by simp, 'p', 't', .inr rfl, .inr rfl, by decide +kernel⟩
  have hperm : mixed.Perm mixed.reverse := (List.reverse_perm mixed).symm
  have hsame := ((ofText_accepts_spellings _).2.2.2.1 _ _ _ _ hs ht hperm).1
  exact ⟨_, hread, rfl, (hsame _).1 hread⟩

end Time.Duration

end DataBlock
