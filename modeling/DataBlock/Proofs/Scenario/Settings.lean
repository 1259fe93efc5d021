import DataBlock.Proofs.Scenario.Additions
import DataBlock.Proofs.Scenario.Overflow
import DataBlock.Proofs.Time.Millis
import DataBlock.Scenario.Settings
/-!
# Scenarios from settings

What the settings say is told without the reader: which number a setting gives,
when it counts as absent, what can be wrong with it, and where the text of the tags
is.  A scenario is read exactly if the settings describe one that takes the tags,
and any error is about the first setting that cannot be used.
-/

namespace DataBlock.Scenario

namespace Source

variable (source : Source) (setting : Setting)

/-- The setting is written as a whole number that 64 bits with a sign can hold. -/
def Gives (n : Int) : Prop :=
  ∃ text, source.get? setting = some text ∧ Text.SignedNumeral (Text.trim text.toList) n ∧
    Int64.minValue.toInt ≤ n ∧ n ≤ Int64.maxValue.toInt

/-- The setting is absent, or it is minus one. -/
def Unset : Prop :=
  source.get? setting = none ∨ source.Gives setting (-1)

/-- A number from zero to `most` is given, or no number. -/
def Holds (most : Nat) : Option Nat → Prop
  | none => source.Unset setting
  | some n => source.Gives setting n ∧ n ≤ most

/-- What is wrong with a setting that may hold a number up to `most`. -/
inductive Wrong (most : Nat) : ConfigFault → Prop
  | notInteger {text : String} (hget : source.get? setting = some text)
      (hnot : ∀ n, ¬ source.Gives setting n) : Wrong most (.notInteger setting.name text)
  | outOfRange {n : Int} (hgives : source.Gives setting n) (hrange : n < -1 ∨ most < n) :
      Wrong most (.outOfRange setting.name most n)

inductive WrongOrUnset (most : Nat) : ConfigFault → Prop
  | wrong {fault : ConfigFault} (h : source.Wrong setting most fault) : WrongOrUnset most fault
  | unset (h : source.Unset setting) : WrongOrUnset most (.missing setting.name)

variable {source setting}

theorem integer?_eq_some_iff {text : List Char} {n : Int} :
    Text.integer? Int64.minValue.toInt Int64.maxValue.toInt text = some n ↔
      Text.SignedNumeral text n ∧ Int64.minValue.toInt ≤ n ∧ n ≤ Int64.maxValue.toInt := by
  rw [Text.integer?_eq_some_iff]
  simp

theorem Gives.unique {m n : Int} (hm : source.Gives setting m) (hn : source.Gives setting n) :
    m = n := by
  obtain ⟨text, htext, hm⟩ := hm
  obtain ⟨text', htext', hn⟩ := hn
  obtain rfl : text = text' := Option.some.inj (htext.symm.trans htext')
  rw [← integer?_eq_some_iff] at hm hn
  exact Option.some.inj (hm.symm.trans hn)

theorem not_gives_of_none {text : String} (hget : source.get? setting = some text)
    (hnone : Text.integer? Int64.minValue.toInt Int64.maxValue.toInt (Text.trim text.toList) = none)
    (n : Int) : ¬ source.Gives setting n := by
  rintro ⟨text', hget', hn⟩
  obtain rfl : text = text' := Option.some.inj (hget.symm.trans hget')
  rw [← integer?_eq_some_iff, hnone] at hn
  cases hn

/-- A setting that may hold a number is absent, minus one, another whole number of
64 bits, or something else. -/
theorem integer?_cases (source : Source) (setting : Setting) :
    (source.integer? setting = .ok none ∧ source.Unset setting) ∨
    (∃ n, source.integer? setting = .ok (some n) ∧ source.Gives setting n ∧ n ≠ -1) ∨
    (∃ text, source.integer? setting = .error (.config (.notInteger setting.name text)) ∧
      source.get? setting = some text ∧ ∀ n, ¬ source.Gives setting n) := by
  unfold integer?
  split
  · next hget => exact .inl ⟨rfl, .inl hget⟩
  · next text hget =>
    split
    · next hnone => exact .inr (.inr ⟨text, rfl, hget, not_gives_of_none hget hnone⟩)
    · next n hsome =>
      have hgives : source.Gives setting n := ⟨text, hget, integer?_eq_some_iff.1 hsome⟩
      split
      · next hminus => exact .inl ⟨rfl, .inr (hminus ▸ hgives)⟩
      · next hother => exact .inr (.inl ⟨n, rfl, hgives, hother⟩)

theorem Unset.not_gives (h : source.Unset setting) {n : Int} (hn : n ≠ -1) :
    ¬ source.Gives setting n := by
  intro hgives
  rcases h with hget | hminus
  · obtain ⟨text, hget', -⟩ := hgives
    rw [hget] at hget'
    cases hget'
  · exact hn (hgives.unique hminus)

/-- What a setting that may hold a number is read as. -/
theorem natural?_cases (source : Source) (setting : Setting) (most : Nat) :
    (∃ found, source.natural? setting most = .ok found ∧ source.Holds setting most found) ∨
    ∃ fault, source.natural? setting most = .error (.config fault) ∧
      source.Wrong setting most fault := by
  rcases source.integer?_cases setting with ⟨hread, hunset⟩ | ⟨n, hread, hgives, hother⟩ |
    ⟨text, hread, hget, hnot⟩
  · refine .inl ⟨none, ?_, hunset⟩
    rw [natural?, hread]
    rfl
  · by_cases hrange : n < 0 ∨ most < n
    · refine .inr ⟨.outOfRange setting.name most n, ?_, .outOfRange hgives (by omega)⟩
      rw [natural?, hread]
      exact if_pos hrange
    · refine .inl ⟨some n.toNat, ?_, ?_, by omega⟩
      · rw [natural?, hread]
        exact if_neg hrange
      · rwa [Int.toNat_of_nonneg (by omega)]
  · refine .inr ⟨.notInteger setting.name text, ?_, .notInteger hget hnot⟩
    rw [natural?, hread]
    rfl

theorem Holds.unique {most : Nat} {a b : Option Nat} (ha : source.Holds setting most a)
    (hb : source.Holds setting most b) : a = b := by
  rcases a with _ | m
  · rcases b with _ | n
    · rfl
    · exact absurd hb.1 (Unset.not_gives ha (by omega))
  · rcases b with _ | n
    · exact absurd ha.1 (Unset.not_gives hb (by omega))
    · have heq := ha.1.unique hb.1
      rw [Option.some.injEq]
      omega

theorem Holds.not_wrong {most : Nat} {found : Option Nat} (h : source.Holds setting most found)
    (fault : ConfigFault) : ¬ source.Wrong setting most fault := by
  rintro (⟨hget, hnot⟩ | ⟨hgives, hrange⟩)
  · rcases found with _ | n
    · rcases h with hnone | hminus
      · rw [hnone] at hget
        cases hget
      · exact hnot _ hminus
    · exact hnot _ h.1
  · rcases found with _ | n
    · exact h.not_gives (by omega) hgives
    · have heq := h.1.unique hgives
      have hle := h.2
      omega

theorem Wrong.unique {most : Nat} {fault fault' : ConfigFault}
    (h : source.Wrong setting most fault) (h' : source.Wrong setting most fault') :
    fault = fault' := by
  rcases h with ⟨hget, hnot⟩ | ⟨hgives, hrange⟩
  · rcases h' with ⟨hget', hnot'⟩ | ⟨hgives', hrange'⟩
    · rw [Option.some.inj (hget.symm.trans hget')]
    · exact absurd hgives' (hnot _)
  · rcases h' with ⟨hget', hnot'⟩ | ⟨hgives', hrange'⟩
    · exact absurd hgives (hnot' _)
    · rw [hgives.unique hgives']

theorem natural?_eq_ok_iff {most : Nat} {found : Option Nat} :
    source.natural? setting most = .ok found ↔ source.Holds setting most found := by
  rcases source.natural?_cases setting most with ⟨found', hread, hholds⟩ | ⟨fault, hread, hwrong⟩
  · rw [hread, Except.ok.injEq]
    constructor
    · rintro rfl
      exact hholds
    · exact hholds.unique
  · rw [hread]
    constructor
    · nofun
    · intro h
      exact absurd hwrong (h.not_wrong fault)

theorem natural?_eq_error_iff {most : Nat} {e : Error} :
    source.natural? setting most = .error e ↔
      ∃ fault, source.Wrong setting most fault ∧ e = .config fault := by
  rcases source.natural?_cases setting most with ⟨found, hread, hholds⟩ | ⟨fault, hread, hwrong⟩
  · rw [hread]
    constructor
    · nofun
    · rintro ⟨fault, hwrong, -⟩
      exact absurd hwrong (hholds.not_wrong fault)
  · rw [hread, Except.error.injEq]
    constructor
    · rintro rfl
      exact ⟨fault, hwrong, rfl⟩
    · rintro ⟨fault', hwrong', rfl⟩
      rw [hwrong.unique hwrong']

theorem natural_eq_ok_iff {most n : Nat} :
    source.natural setting most = .ok n ↔ source.Holds setting most (some n) := by
  rw [natural, bind_eq_ok_iff]
  simp only [natural?_eq_ok_iff]
  constructor
  · rintro ⟨found, hholds, hn⟩
    rcases found with _ | m
    · cases hn
    · cases hn
      exact hholds
  · intro h
    exact ⟨some n, h, rfl⟩

theorem natural_eq_error_iff {most : Nat} {e : Error} :
    source.natural setting most = .error e ↔
      ∃ fault, source.WrongOrUnset setting most fault ∧ e = .config fault := by
  rw [natural, bind_eq_error_iff]
  simp only [natural?_eq_ok_iff, natural?_eq_error_iff]
  constructor
  · rintro (⟨fault, hwrong, rfl⟩ | ⟨found, hholds, hn⟩)
    · exact ⟨fault, .wrong hwrong, rfl⟩
    · rcases found with _ | m
      · cases hn
        exact ⟨_, .unset hholds, rfl⟩
      · cases hn
  · rintro ⟨fault, hwrong | hunset, rfl⟩
    · exact .inl ⟨fault, hwrong, rfl⟩
    · exact .inr ⟨none, hunset, rfl⟩

/-! ## The text of the tags -/

variable (source)

/-- The text of the tags: that of the setting, even if it is empty, or else that of
the file, or else none. -/
inductive TagsText : String → Prop
  | given {text : String} (htags : source.get? .tags = some text) : TagsText text
  | file {path text : String} (htags : source.get? .tags = none)
      (hpath : source.get? .tagsFile = some path) (htext : source.fileText path = .ok text) :
      TagsText text
  | absent (htags : source.get? .tags = none) (hpath : source.get? .tagsFile = none) : TagsText ""

inductive Unreadable : ConfigFault → Prop
  | mk {path reason : String} (htags : source.get? .tags = none)
      (hpath : source.get? .tagsFile = some path) (hreason : source.fileText path = .error reason) :
      Unreadable (.unreadable path reason)

variable {source}

theorem tagsText_eq_ok_iff {text : String} :
    source.tagsText = .ok text ↔ source.TagsText text := by
  unfold tagsText
  constructor
  · intro h
    split at h
    · next htags =>
      cases h
      exact .given htags
    · next htags hpath => exact .file htags hpath (mapError_eq_ok_iff.1 h)
    · next htags hpath =>
      cases h
      exact .absent htags hpath
  · intro h
    cases h with
    | given htags => rw [htags]
    | file htags hpath htext =>
        rw [htags, hpath]
        exact mapError_eq_ok_iff.2 htext
    | absent htags hpath => rw [htags, hpath]

theorem tagsText_eq_error_iff {e : Error} :
    source.tagsText = .error e ↔ ∃ fault, source.Unreadable fault ∧ e = .config fault := by
  unfold tagsText
  constructor
  · intro h
    split at h
    · cases h
    · next htags hpath =>
      obtain ⟨reason, hreason, rfl⟩ := mapError_eq_error_iff.1 h
      exact ⟨_, .mk htags hpath hreason, rfl⟩
    · cases h
  · rintro ⟨_, ⟨htags, hpath, hreason⟩, rfl⟩
    rw [htags, hpath]
    exact mapError_eq_error_iff.2 ⟨_, hreason, rfl⟩

/-! ## The scenario without its tags -/

variable (source)

/-- The scenario of the settings, still without tags. -/
def base? : Except Error Scenario := do
  let cycles ← source.natural .cycles (UInt32.size - 1)
  let cycleTime ← source.natural .cycleTime (UInt32.size - 1)
  let rack ← source.natural? .rack (UInt16.size - 1)
  let slot ← source.natural? .slot (UInt16.size - 1)
  return { new cycles (.ofMillis (UInt64.ofNat cycleTime)) with
    host := (source.get? .host).filter fun text => Text.trim text.toList ≠ []
    rack := rack.map UInt16.ofNat
    slot := slot.map UInt16.ofNat }

structure Describes (base : Scenario) : Prop where
  cycles : source.Holds .cycles (UInt32.size - 1) (some base.cycles)
  cycleTime : ∃ millis, source.Holds .cycleTime (UInt32.size - 1) (some millis) ∧
    base.cycleTime.nanos = millis * 1_000_000
  rack : source.Holds .rack (UInt16.size - 1) (base.rack.map UInt16.toNat)
  slot : source.Holds .slot (UInt16.size - 1) (base.slot.map UInt16.toNat)
  host : ∀ text, base.host = some text ↔
    source.get? .host = some text ∧ ∃ c ∈ text.toList, Text.isBlank c = false
  entries : base.entries = []

/-- The first number of the settings that cannot be used, in the order cycles,
cycle time, rack, slot. -/
inductive FirstWrong : ConfigFault → Prop
  | cycles {fault : ConfigFault} (h : source.WrongOrUnset .cycles (UInt32.size - 1) fault) :
      FirstWrong fault
  | cycleTime {cycles : Nat} {fault : ConfigFault}
      (hcycles : source.Holds .cycles (UInt32.size - 1) (some cycles))
      (h : source.WrongOrUnset .cycleTime (UInt32.size - 1) fault) : FirstWrong fault
  | rack {cycles millis : Nat} {fault : ConfigFault}
      (hcycles : source.Holds .cycles (UInt32.size - 1) (some cycles))
      (hcycleTime : source.Holds .cycleTime (UInt32.size - 1) (some millis))
      (h : source.Wrong .rack (UInt16.size - 1) fault) : FirstWrong fault
  | slot {cycles millis : Nat} {rack : Option Nat} {fault : ConfigFault}
      (hcycles : source.Holds .cycles (UInt32.size - 1) (some cycles))
      (hcycleTime : source.Holds .cycleTime (UInt32.size - 1) (some millis))
      (hrack : source.Holds .rack (UInt16.size - 1) rack)
      (h : source.Wrong .slot (UInt16.size - 1) fault) : FirstWrong fault

variable {source}

theorem Holds.map_ofNat {found : Option Nat} (h : source.Holds setting (UInt16.size - 1) found) :
    (found.map UInt16.ofNat).map UInt16.toNat = found := by
  rcases found with _ | n
  · rfl
  · have hlt : n < UInt16.size := Nat.lt_of_le_of_lt h.2 (by decide)
    rw [Option.map_some, Option.map_some, UInt16.toNat_ofNat_of_lt' hlt]

theorem map_toNat_ofNat (number : Option UInt16) :
    (number.map UInt16.toNat).map UInt16.ofNat = number := by
  cases number <;> simp

theorem nanos_ofMillis {millis : Nat} (h : source.Holds setting (UInt32.size - 1) (some millis)) :
    (Time.Duration.ofMillis (UInt64.ofNat millis)).nanos = millis * 1_000_000 :=
  Time.Duration.nanos_ofMillis_ofNat (Nat.lt_of_le_of_lt h.2 (by decide))

/-- A text is kept unless all of it is blank. -/
theorem filter_eq_some_iff_exists {found : Option String} {text : String} :
    (found.filter fun text => Text.trim text.toList ≠ []) = some text ↔
      found = some text ∧ ∃ c ∈ text.toList, Text.isBlank c = false := by
  rw [Option.filter_eq_some_iff, decide_eq_true_eq, Ne, Text.trim_eq_nil_iff]
  simp

theorem base?_eq_ok_iff {base : Scenario} : source.base? = .ok base ↔ source.Describes base := by
  simp only [base?, bind_eq_ok_iff, natural_eq_ok_iff, natural?_eq_ok_iff]
  constructor
  · rintro ⟨cycles, hcycles, millis, hmillis, rack, hrack, slot, hslot, hbase⟩
    cases hbase
    constructor
    · exact hcycles
    · exact ⟨millis, hmillis, nanos_ofMillis hmillis⟩
    · rw [hrack.map_ofNat]
      exact hrack
    · rw [hslot.map_ofNat]
      exact hslot
    · intro text
      exact filter_eq_some_iff_exists
    · rfl
  · intro h
    obtain ⟨millis, hmillis, hnanos⟩ := h.cycleTime
    refine ⟨_, h.cycles, millis, hmillis, _, h.rack, _, h.slot, ?_⟩
    have hcycleTime : Time.Duration.ofMillis (UInt64.ofNat millis) = base.cycleTime :=
      Time.Duration.eq_of_nanos_eq (by rw [nanos_ofMillis hmillis, hnanos])
    have hhost : ((source.get? .host).filter fun text => Text.trim text.toList ≠ []) =
        base.host := by
      apply Option.ext
      intro text
      rw [filter_eq_some_iff_exists, h.host]
    have hentries := h.entries
    rcases base with ⟨host, rack, slot, cycles, cycleTime, entries⟩
    simp only at hcycleTime hhost hentries ⊢
    simp only [map_toNat_ofNat, hcycleTime, hhost, hentries, new]
    rfl

theorem base?_eq_error_iff {e : Error} :
    source.base? = .error e ↔ ∃ fault, source.FirstWrong fault ∧ e = .config fault := by
  simp only [base?, bind_eq_error_iff, natural_eq_ok_iff, natural?_eq_ok_iff,
    natural_eq_error_iff, natural?_eq_error_iff]
  constructor
  · rintro (⟨fault, h, rfl⟩ | ⟨cycles, hcycles, ⟨fault, h, rfl⟩ | ⟨millis, hmillis,
      ⟨fault, h, rfl⟩ | ⟨rack, hrack, ⟨fault, h, rfl⟩ | ⟨slot, hslot, hnone⟩⟩⟩⟩)
    · exact ⟨fault, .cycles h, rfl⟩
    · exact ⟨fault, .cycleTime hcycles h, rfl⟩
    · exact ⟨fault, .rack hcycles hmillis h, rfl⟩
    · exact ⟨fault, .slot hcycles hmillis hrack h, rfl⟩
    · cases hnone
  · rintro ⟨fault, hfault, rfl⟩
    cases hfault with
    | cycles h => exact .inl ⟨fault, h, rfl⟩
    | cycleTime hcycles h => exact .inr ⟨_, hcycles, .inl ⟨fault, h, rfl⟩⟩
    | rack hcycles hmillis h =>
        exact .inr ⟨_, hcycles, .inr ⟨_, hmillis, .inl ⟨fault, h, rfl⟩⟩⟩
    | slot hcycles hmillis hrack h =>
        exact .inr ⟨_, hcycles, .inr ⟨_, hmillis, .inr ⟨_, hrack, .inl ⟨fault, h, rfl⟩⟩⟩⟩

/-- The error of the first setting that cannot be used: a number, the file of the
tags, or their text. -/
inductive FirstBad (source : Source) : Error → Prop
  | number {fault : ConfigFault} (h : source.FirstWrong fault) : FirstBad source (.config fault)
  | file {base : Scenario} {fault : ConfigFault} (hbase : source.Describes base)
      (h : source.Unreadable fault) : FirstBad source (.config fault)
  | tags {base : Scenario} {text : String} {e : Error} (hbase : source.Describes base)
      (htext : source.TagsText text) (h : base.withTags text = .error e) : FirstBad source e

end Source

theorem ofSource_eq (source : Source) :
    ofSource source = source.base? >>= fun base => source.tagsText >>= base.withTags := by
  simp only [ofSource, Source.base?, bind_assoc, pure_bind]

theorem ofSource_eq_ok_iff {source : Source} {s : Scenario} :
    ofSource source = .ok s ↔
      ∃ base text, source.Describes base ∧ source.TagsText text ∧ base.withTags text = .ok s := by
  rw [ofSource_eq, bind_eq_ok_iff]
  simp only [bind_eq_ok_iff, Source.base?_eq_ok_iff, Source.tagsText_eq_ok_iff]
  constructor
  · rintro ⟨base, hbase, text, htext, hs⟩
    exact ⟨base, text, hbase, htext, hs⟩
  · rintro ⟨base, text, hbase, htext, hs⟩
    exact ⟨base, hbase, text, htext, hs⟩

theorem ofSource_eq_error_iff {source : Source} {e : Error} :
    ofSource source = .error e ↔ source.FirstBad e := by
  rw [ofSource_eq, bind_eq_error_iff]
  simp only [bind_eq_error_iff, Source.base?_eq_ok_iff, Source.base?_eq_error_iff,
    Source.tagsText_eq_ok_iff, Source.tagsText_eq_error_iff]
  constructor
  · rintro (⟨fault, h, rfl⟩ | ⟨base, hbase, ⟨fault, h, rfl⟩ | ⟨text, htext, h⟩⟩)
    · exact .number h
    · exact .file hbase h
    · exact .tags hbase htext h
  · intro h
    cases h with
    | number h => exact .inl ⟨_, h, rfl⟩
    | file hbase h => exact .inr ⟨_, hbase, .inl ⟨_, h, rfl⟩⟩
    | tags hbase htext h => exact .inr ⟨_, hbase, .inr ⟨_, htext, h⟩⟩

theorem isConfig_of_withTags {s : Scenario} {text : String} {e : Error}
    (h : s.withTags text = .error e) (he : e ≠ .overflow) : e.isConfig = true := by
  obtain ⟨n, line, cause, -, rfl⟩ := withTags_eq_error_iff.1 h
  rw [atLine_of_ne_overflow (fun hcause => he (atLine_eq_overflow_iff.2 hcause))]
  rfl

theorem isConfig_of_firstBad {source : Source} {e : Error} (h : source.FirstBad e)
    (he : e ≠ .overflow) : e.isConfig = true := by
  cases h with
  | number | file => rfl
  | tags hbase htext h => exact isConfig_of_withTags h he

/-- A scenario is read from settings exactly if they describe one: cycles and cycle
time are given with numbers of 32 bits, rack and slot with numbers of 16 bits or not
at all, and the text of the tags is found and taken.  It has exactly these numbers
and the host as it is written.  Otherwise the error is that of the first setting
that cannot be used, and an error of configuration, unless the first line of tags
that cannot be used fails for a sum out of range: then so does the scenario. -/
theorem ofSource_exact (source : Source) :
    (∀ s, ofSource source = .ok s ↔
      ∃ base text, source.Describes base ∧ source.TagsText text ∧ base.withTags text = .ok s) ∧
    (∀ e, ofSource source = .error e ↔ source.FirstBad e) ∧
    (ofSource source = .error .overflow ↔
      ∃ base text n line, source.Describes base ∧ source.TagsText text ∧
        FirstFault (Text.lines text.toList) n line .overflow) ∧
    ∀ e, ofSource source = .error e → e ≠ .overflow → e.isConfig = true := by
  refine ⟨fun s => ofSource_eq_ok_iff, fun e => ofSource_eq_error_iff, ?_, ?_⟩
  · rw [ofSource_eq_error_iff]
    constructor
    · intro h
      cases h with
      | tags hbase htext h =>
          obtain ⟨n, line, hfault⟩ := withTags_eq_overflow_iff.1 h
          exact ⟨_, _, n, line, hbase, htext, hfault⟩
    · rintro ⟨base, text, n, line, hbase, htext, hfault⟩
      exact .tags hbase htext (withTags_eq_overflow_iff.2 ⟨n, line, hfault⟩)
  · intro e h he
    exact isConfig_of_firstBad (ofSource_eq_error_iff.1 h) he

def Source.ofTexts (texts : List (String × String)) (path fileText : String) : Source where
  lookup name := texts.lookup name
  fileText name := if name = path then .ok fileText else .error "no such file"

def atTheEnds : Source :=
  .ofTexts [("S7TAG_CYCLES", " +4294967295"), ("S7TAG_CYCLE_TIME_MS", "0\n"), ("S7TAG_RACK", "-1"),
    ("S7TAG_SLOT", "065535"), ("S7TAG_HOST", " plc "), ("S7TAG_TAGS_FILE", "tags")] "tags"
    "%DB9:6:INT | INT;1"

/-- Three settings that cannot be used, the rack before the other two. -/
def thriceWrong : Source :=
  .ofTexts [("S7TAG_CYCLES", "1"), ("S7TAG_CYCLE_TIME_MS", "10"), ("S7TAG_RACK", "-2"),
    ("S7TAG_SLOT", "x"), ("S7TAG_TAGS", "%DB9:6:INT | INT;x")] "tags" ""

def lastNumbers : Scenario :=
  ⟨some " plc ", none, some 65535, 4294967295, .zero, []⟩

theorem ofSource_atTheEnds :
    (∃ s, ofSource atTheEnds = .ok s ∧ lastNumbers.withTags "%DB9:6:INT | INT;1" = .ok s) ∧
    ofSource thriceWrong = .error (.config (.outOfRange "S7TAG_RACK" 65535 (-2))) ∧
    (Error.config (.outOfRange "S7TAG_RACK" 65535 (-2))).isConfig = true := by
  have hdescribes : atTheEnds.Describes lastNumbers := by
    rw [← Source.base?_eq_ok_iff]
    decide +kernel
  have htext : atTheEnds.TagsText "%DB9:6:INT | INT;1" := by
    rw [← Source.tagsText_eq_ok_iff]
    decide +kernel
  have htaken : ∀ pair ∈ barredLines "%DB9:6:INT | INT;1", lastNumbers.Accepts pair := by
    decide +kernel
  obtain ⟨s, hs⟩ := exists_withEach_eq_ok_iff.2 htaken
  rw [← withTags_eq_ok_iff_withEach] at hs
  have hwrong : ofSource thriceWrong =
      .error (.config (.outOfRange "S7TAG_RACK" 65535 (-2))) := by
    decide +kernel
  refine ⟨⟨s, ?_, hs⟩, hwrong, (ofSource_exact thriceWrong).2.2.2 _ hwrong (by decide)⟩
  exact ((ofSource_exact atTheEnds).1 s).2 ⟨lastNumbers, _, hdescribes, htext, hs⟩

/-- Settings with tags that fail for a sum, and so with no error of configuration. -/
theorem longest_period_unconfigured :
    ∃ e, ofSource (.ofTexts [("S7TAG_CYCLES", "1"), ("S7TAG_CYCLE_TIME_MS", "10"),
        ("S7TAG_TAGS", "%DB1:0:TIME | time;P213503982334601DT25216S")] "" "") = .error e ∧
      e.isConfig = false := by
  refine ⟨.overflow, ?_, rfl⟩
  decide +kernel

end DataBlock.Scenario
