import DataBlock.Proofs.Scenario.Lines
import Mathlib.Data.List.Induction
/-!
# Scenarios and what was written into them

A scenario is set up in steps.  Its entries are told by the pairs written in
these steps, whether one by one or on the lines of texts: each address has one
entry, at the place and with the number it got when it was first written, and
the entry expects what was last written for it.
-/

namespace DataBlock.Scenario

inductive Step where
  | host (host : String)
  | rackSlot (rack slot : UInt16)
  | tags (text : String)
  | tag (address expected : String)
  deriving DecidableEq, Repr

def Step.written : Step → List Written
  | .host _ | .rackSlot .. => []
  | .tags text => Written.ofText text
  | .tag address expected => [.of address.toList expected.toList]

def apply (s : Scenario) : Step → Except Error Scenario
  | .host host => .ok (s.withHost host)
  | .rackSlot rack slot => .ok (s.withRackSlot rack slot)
  | .tags text => s.withTags text
  | .tag address expected => s.withTag address expected

def applyAll (s : Scenario) (steps : List Step) : Except Error Scenario :=
  steps.foldlM apply s

def lastFor? (address : String) (history : List Written) : Option Written :=
  (history.filter (·.address = address)).getLast?

/-- The place of an address among all that was written. -/
def firstPlace (address : String) (history : List Written) : Nat :=
  (history.map (·.address)).idxOf address

/-- Entries as the history of what was written tells them. -/
structure Tells (history : List Written) (entries : List Entry) : Prop where
  name_eq : ∀ i entry, entries[i]? = some entry → entry.name = "tag-" ++ toString (i + 1)
  mem_iff : ∀ address, address ∈ entries.map (·.address) ↔ address ∈ history.map (·.address)
  ordered : (entries.map (·.address)).Pairwise fun a b =>
    firstPlace a history < firstPlace b history
  trimmed : ∀ entry ∈ entries, Text.trim entry.address.toList = entry.address.toList
  tag_eq : ∀ entry ∈ entries, Tag.parse entry.address = .ok entry.tag
  expected_eq : ∀ entry ∈ entries, ∃ w, lastFor? entry.address history = some w ∧
    Expectation.parse w.expected = .ok entry.expected

/-- What a step never changes of an entry. -/
def Entry.place (entry : Entry) : String × String × Tag :=
  (entry.name, entry.address, entry.tag)

/-! ## One pair -/

theorem lastFor?_concat (address : String) (history : List Written) (w : Written) :
    lastFor? address (history ++ [w]) =
      if w.address = address then some w else lastFor? address history := by
  by_cases h : w.address = address <;> simp [lastFor?, h]

theorem firstPlace_concat_of_mem {address : String} {history : List Written}
    (h : address ∈ history.map (·.address)) (w : Written) :
    firstPlace address (history ++ [w]) = firstPlace address history := by
  rw [firstPlace, List.map_append, List.idxOf_append_of_mem h, firstPlace]

theorem firstPlace_lt {address : String} {history : List Written}
    (h : address ∈ history.map (·.address)) : firstPlace address history < history.length := by
  have hlength : (history.map (·.address)).length = history.length := List.length_map _
  rw [firstPlace, ← hlength]
  exact List.idxOf_lt_length_iff.2 h

theorem firstPlace_concat_self {history : List Written} {w : Written}
    (h : w.address ∉ history.map (·.address)) :
    firstPlace w.address (history ++ [w]) = history.length := by
  rw [firstPlace, List.map_append, List.idxOf_append_of_notMem h]
  simp

def Entry.revise (entry : Entry) (pair : Pair) : Entry :=
  if entry.address = pair.address then { entry with expected := pair.expected } else entry

theorem place_revise (entry : Entry) (pair : Pair) : (entry.revise pair).place = entry.place := by
  unfold Entry.revise
  split <;> rfl

theorem insert_of_mem {entries : List Entry} {pair : Pair}
    (h : pair.address ∈ entries.map (·.address)) :
    insert entries pair = entries.map fun entry => entry.revise pair := by
  have hany : entries.any (·.address == pair.address) = true := by
    rcases List.mem_map.1 h with ⟨entry, hmem, heq⟩
    exact List.any_eq_true.2 ⟨entry, hmem, beq_iff_eq.2 heq⟩
  rw [insert, if_pos hany]
  rfl

theorem insert_of_notMem {entries : List Entry} {pair : Pair}
    (h : pair.address ∉ entries.map (·.address)) :
    insert entries pair =
      entries ++ [⟨"tag-" ++ toString (entries.length + 1), pair.address, pair.tag,
        pair.expected⟩] := by
  have hany : ¬ entries.any (·.address == pair.address) = true := by
    intro hany
    rcases List.any_eq_true.1 hany with ⟨entry, hmem, heq⟩
    exact h (List.mem_map.2 ⟨entry, hmem, beq_iff_eq.1 heq⟩)
  rw [insert, if_neg hany]

theorem place_insert (entries : List Entry) (pair : Pair) :
    entries.map Entry.place <+: (insert entries pair).map Entry.place := by
  by_cases h : pair.address ∈ entries.map (·.address)
  · have hsame : (insert entries pair).map Entry.place = entries.map Entry.place := by
      rw [insert_of_mem h, List.map_map]
      apply List.map_congr_left
      intro entry _
      exact place_revise entry pair
    exact ⟨[], by rw [List.append_nil, hsame]⟩
  · rw [insert_of_notMem h, List.map_append]
    exact List.prefix_append _ _

theorem tells_nil : Tells [] [] where
  name_eq := by simp
  mem_iff := by simp
  ordered := .nil
  trimmed := by simp
  tag_eq := by simp
  expected_eq := by simp

namespace Tells

variable {history : List Written} {entries : List Entry} {w : Written} {pair : Pair}

theorem ordered_concat (h : Tells history entries) (w : Written) :
    (entries.map (·.address)).Pairwise fun a b =>
      firstPlace a (history ++ [w]) < firstPlace b (history ++ [w]) := by
  apply h.ordered.imp_of_mem
  intro a b ha hb hab
  rw [firstPlace_concat_of_mem ((h.mem_iff a).1 ha), firstPlace_concat_of_mem ((h.mem_iff b).1 hb)]
  exact hab

theorem insert_known (h : Tells history entries) (hw : w.read = .ok pair)
    (hknown : pair.address ∈ entries.map (·.address)) :
    Tells (history ++ [w]) (entries.map fun entry => entry.revise pair) := by
  obtain ⟨haddress, -, hexpected⟩ := Written.read_eq_ok_iff.1 hw
  have hplace : ∀ entry : Entry, (entry.revise pair).name = entry.name ∧
      (entry.revise pair).address = entry.address ∧ (entry.revise pair).tag = entry.tag := by
    intro entry
    simpa [Entry.place] using place_revise entry pair
  have haddresses : (entries.map fun entry => entry.revise pair).map (·.address) =
      entries.map (·.address) := by
    rw [List.map_map]
    apply List.map_congr_left
    intro entry _
    exact (hplace entry).2.1
  constructor
  case name_eq =>
    intro i entry hentry
    rw [List.getElem?_map, Option.map_eq_some_iff] at hentry
    obtain ⟨old, hold, rfl⟩ := hentry
    rw [(hplace old).1, h.name_eq i old hold]
  case mem_iff =>
    intro address
    rw [haddresses, List.map_append, List.mem_append, h.mem_iff, List.map_singleton,
      List.mem_singleton, iff_self_or]
    rintro rfl
    rw [← haddress, ← h.mem_iff]
    exact hknown
  case ordered =>
    rw [haddresses]
    exact h.ordered_concat w
  case trimmed =>
    intro entry hentry
    obtain ⟨old, hold, rfl⟩ := List.mem_map.1 hentry
    rw [(hplace old).2.1]
    exact h.trimmed old hold
  case tag_eq =>
    intro entry hentry
    obtain ⟨old, hold, rfl⟩ := List.mem_map.1 hentry
    rw [(hplace old).2.1, (hplace old).2.2]
    exact h.tag_eq old hold
  case expected_eq =>
    intro entry hentry
    obtain ⟨old, hold, rfl⟩ := List.mem_map.1 hentry
    rw [lastFor?_concat, (hplace old).2.1, Entry.revise, ← haddress]
    by_cases hsame : old.address = pair.address
    · rw [if_pos hsame, if_pos hsame.symm]
      exact ⟨w, rfl, hexpected⟩
    · rw [if_neg hsame, if_neg (Ne.symm hsame)]
      exact h.expected_eq old hold

theorem insert_new (h : Tells history entries) (hw : w.read = .ok pair)
    (hnew : pair.address ∉ entries.map (·.address)) :
    Tells (history ++ [w])
      (entries ++ [⟨"tag-" ++ toString (entries.length + 1), pair.address, pair.tag,
        pair.expected⟩]) := by
  obtain ⟨haddress, htag, hexpected⟩ := Written.read_eq_ok_iff.1 hw
  have hunwritten : w.address ∉ history.map (·.address) := by
    rw [← haddress, ← h.mem_iff]
    exact hnew
  constructor
  case name_eq =>
    intro i entry hentry
    rcases Nat.lt_trichotomy i entries.length with hlt | rfl | hgt
    · rw [List.getElem?_append_left hlt] at hentry
      exact h.name_eq i entry hentry
    · rw [List.getElem?_concat_length, Option.some.injEq] at hentry
      rw [← hentry]
    · rw [List.getElem?_append_right (Nat.le_of_lt hgt),
        List.getElem?_eq_none (by rw [List.length_singleton]; omega)] at hentry
      cases hentry
  case mem_iff =>
    intro address
    simp only [List.map_append, List.mem_append, h.mem_iff, List.map_singleton,
      List.mem_singleton, haddress]
  case ordered =>
    rw [List.map_append, List.pairwise_append]
    refine ⟨h.ordered_concat w, List.pairwise_singleton _ _, ?_⟩
    intro a ha b hb
    rw [List.map_singleton, List.mem_singleton] at hb
    have hwritten := (h.mem_iff a).1 ha
    rw [hb, haddress, firstPlace_concat_self hunwritten, firstPlace_concat_of_mem hwritten]
    exact firstPlace_lt hwritten
  case trimmed =>
    intro entry hentry
    rcases List.mem_append.1 hentry with hold | hlast
    · exact h.trimmed entry hold
    · rw [List.mem_singleton.1 hlast, haddress]
      exact w.trimmed
  case tag_eq =>
    intro entry hentry
    rcases List.mem_append.1 hentry with hold | hlast
    · exact h.tag_eq entry hold
    · rw [List.mem_singleton.1 hlast, haddress]
      exact htag
  case expected_eq =>
    intro entry hentry
    rw [lastFor?_concat, ← haddress]
    rcases List.mem_append.1 hentry with hold | hlast
    · have hne : pair.address ≠ entry.address := by
        intro heq
        exact hnew (heq ▸ List.mem_map_of_mem hold)
      rw [if_neg hne]
      exact h.expected_eq entry hold
    · rw [List.mem_singleton.1 hlast, if_pos rfl]
      exact ⟨w, rfl, hexpected⟩

theorem insert (h : Tells history entries) (hw : w.read = .ok pair) :
    Tells (history ++ [w]) (insert entries pair) := by
  by_cases hknown : pair.address ∈ entries.map (·.address)
  · rw [insert_of_mem hknown]
    exact h.insert_known hw hknown
  · rw [insert_of_notMem hknown]
    exact h.insert_new hw hknown

theorem insertAll {ws : List Written} {pairs : List Pair} (h : Tells history entries)
    (hws : List.Forall₂ (fun w pair => Written.read w = .ok pair) ws pairs) :
    Tells (history ++ ws) (pairs.foldl Scenario.insert entries) := by
  induction hws generalizing history entries with
  | nil => simpa using h
  | cons hw _ ih =>
      rw [List.append_cons, List.foldl_cons]
      exact ih (h.insert hw)

end Tells

/-! ## Steps -/

/-- What a step leaves alone: all but what it is for. -/
def Step.Keeps (step : Step) (s s' : Scenario) : Prop :=
  match step with
  | .host given => s' = { s with host := some given }
  | .rackSlot r l => s' = { s with rack := some r, slot := some l }
  | .tags _ | .tag .. => s' = { s with entries := s'.entries }

theorem foldl_add (s : Scenario) (pairs : List Pair) :
    pairs.foldl add s = { s with entries := pairs.foldl insert s.entries } := by
  induction pairs generalizing s with
  | nil => rfl
  | cons pair pairs ih =>
      rw [List.foldl_cons, List.foldl_cons, ih]
      rfl

/-- A step that succeeds reads all it writes, and adds the pairs one after the
other. -/
theorem apply_eq_ok {s s' : Scenario} {step : Step} (h : s.apply step = .ok s') :
    step.Keeps s s' ∧
      ∃ pairs, List.Forall₂ (fun w pair => Written.read w = .ok pair) step.written pairs ∧
        s'.entries = pairs.foldl insert s.entries := by
  cases step with
  | host host =>
      obtain rfl := Except.ok.inj h
      exact ⟨rfl, [], .nil, rfl⟩
  | rackSlot rack slot =>
      obtain rfl := Except.ok.inj h
      exact ⟨rfl, [], .nil, rfl⟩
  | tags text =>
      rw [apply, withTags, bind_eq_ok_iff] at h
      obtain ⟨pairs, hpairs, h⟩ := h
      obtain rfl := Except.ok.inj h
      rw [Step.Keeps, foldl_add]
      exact ⟨rfl, pairs, readLines_eq_ok_iff.1 hpairs, rfl⟩
  | tag address expected =>
      rw [apply, withTag, bind_eq_ok_iff] at h
      obtain ⟨pair, hpair, h⟩ := h
      obtain rfl := Except.ok.inj h
      rw [Written.pair_read] at hpair
      exact ⟨rfl, [pair], .cons hpair .nil, rfl⟩

theorem place_apply {s s' : Scenario} {step : Step} (h : s.apply step = .ok s') :
    s.entries.map Entry.place <+: s'.entries.map Entry.place := by
  obtain ⟨-, pairs, -, hentries⟩ := apply_eq_ok h
  rw [hentries]
  generalize s.entries = entries
  clear h hentries
  induction pairs generalizing entries with
  | nil => exact List.prefix_rfl
  | cons pair pairs ih => exact (place_insert entries pair).trans (ih (insert entries pair))

theorem tells_applyAll {s s' : Scenario} {history : List Written} {steps : List Step}
    (h : Tells history s.entries) (hsteps : s.applyAll steps = .ok s') :
    Tells (history ++ steps.flatMap Step.written) s'.entries := by
  induction steps generalizing s history with
  | nil =>
      obtain rfl := Except.ok.inj hsteps
      simpa using h
  | cons step steps ih =>
      rw [applyAll, List.foldlM_cons, bind_eq_ok_iff] at hsteps
      obtain ⟨next, hnext, hrest⟩ := hsteps
      obtain ⟨-, pairs, hpairs, hentries⟩ := apply_eq_ok hnext
      have hstep := h.insertAll hpairs
      rw [← hentries] at hstep
      rw [List.flatMap_cons, ← List.append_assoc]
      exact ih hstep hrest

theorem Tells.nodup {history : List Written} {entries : List Entry} (h : Tells history entries) :
    (entries.map (·.address)).Nodup := by
  apply h.ordered.imp
  rintro a b hab rfl
  exact Nat.lt_irrefl _ hab

/-- After any steps that succeed, the entries of a scenario are told by what the
steps have written: they are numbered from one, no address occurs twice, the
addresses come in the order in which they were first written, each is without
blanks around it and read as the tag kept beside it, and what is expected there
is what was last written for it.  A step takes away, moves or renames no entry
and changes no address and no tag; steps about the host, the rack and the slot
leave the entries alone, and steps about tags leave all else alone. -/
theorem applyAll_tells (cycles : Nat) (cycleTime : Time.Duration) (steps : List Step)
    (s : Scenario) (h : (new cycles cycleTime).applyAll steps = .ok s) :
    Tells (steps.flatMap Step.written) s.entries ∧
    (s.entries.map (·.address)).Nodup ∧
    ∀ step s', s.apply step = .ok s' →
      s.entries.map Entry.place <+: s'.entries.map Entry.place ∧ step.Keeps s s' := by
  have htells : Tells (steps.flatMap Step.written) s.entries := by
    simpa using tells_applyAll tells_nil h
  refine ⟨htells, htells.nodup, ?_⟩
  intro step s' hstep
  exact ⟨place_apply hstep, (apply_eq_ok hstep).1⟩

/-- An address that is written three times, two of them on lines of one text. -/
def repeated : List Step :=
  [.tag " %DB9:6:INT" "INT;1", .host "plc",
    .tags "%DB9:8:INT | INT;2\nno pair\n%DB9:6:INT|INT;3 \n %DB9:6:INT | INT;4"]

def settled : Scenario :=
  ⟨some "plc", none, none, 1, .ofMillis 10,
    [⟨"tag-1", "%DB9:6:INT", ⟨⟨9, 6, 0, .int, none⟩, rfl⟩, .int 4⟩,
      ⟨"tag-2", "%DB9:8:INT", ⟨⟨9, 8, 0, .int, none⟩, rfl⟩, .int 2⟩]⟩

theorem repeated_settled :
    (new 1 (.ofMillis 10)).applyAll repeated = .ok settled ∧
    Tells (repeated.flatMap Step.written) settled.entries ∧
    (settled.entries.map (·.address)).Nodup ∧
    ∃ s', settled.apply (.tag "%DB9:6:INT" "INT;5") = .ok s' ∧
      settled.entries.map Entry.place <+: s'.entries.map Entry.place ∧
      s' = { settled with entries := s'.entries } := by
  have hsteps : (new 1 (.ofMillis 10)).applyAll repeated = .ok settled := by
    decide +kernel
  obtain ⟨s', hs'⟩ : ∃ s', settled.apply (.tag "%DB9:6:INT" "INT;5") = .ok s' := by
    refine ⟨settled.add ⟨"%DB9:6:INT", ⟨⟨9, 6, 0, .int, none⟩, rfl⟩, .int 5⟩, ?_⟩
    decide +kernel
  obtain ⟨htells, hnodup, hnext⟩ := applyAll_tells 1 (.ofMillis 10) repeated settled hsteps
  obtain ⟨hplace, hkeeps⟩ := hnext _ s' hs'
  exact ⟨hsteps, htells, hnodup, s', hs', hplace, hkeeps⟩

end DataBlock.Scenario
