import DataBlock.Proofs.Scenario.Lines
/-!
# A text of tags and its tags one by one

The tags of a text are all added or none is.  If each of its lines with exactly
one bar can be added by itself, the text gives what these give one after the
other; if not, the first that cannot is the error, with its number among all
lines.  So texts can be put together line by line.
-/

namespace DataBlock.Scenario

/-- The parts before and after the bar of a line with exactly one. -/
def barred? (line : List Char) : Option (String × String) :=
  match line.splitOn '|' with
  | [address, expected] => some (String.ofList address, String.ofList expected)
  | _ => none

def barredLines (text : String) : List (String × String) :=
  (Text.lines text.toList).filterMap barred?

def withEach (s : Scenario) (pairs : List (String × String)) : Except Error Scenario :=
  pairs.foldlM (fun s pair => s.withTag pair.1 pair.2) s

def Accepts (s : Scenario) (pair : String × String) : Prop :=
  ∃ s', s.withTag pair.1 pair.2 = .ok s'

instance (s : Scenario) (pair : String × String) : Decidable (s.Accepts pair) :=
  decidable_of_iff ((s.withTag pair.1 pair.2).isOk = true) (by
    unfold Accepts
    cases s.withTag pair.1 pair.2 <;> simp [Except.isOk, Except.toBool])

/-- The first of the lines whose tag cannot be added: how many lines come before
it, the line, and why its tag cannot be added. -/
structure FirstRefused (s : Scenario) (lines : List (List Char)) (n : Nat) (line : List Char)
    (cause : Error) : Prop where
  line_eq : lines[n]? = some line
  refused : ∃ pair ∈ barred? line, s.withTag pair.1 pair.2 = .error cause
  accepted : ∀ earlier ∈ lines.take n, ∀ pair ∈ barred? earlier, s.Accepts pair

/-! ## One tag -/

def writtenOf (pair : String × String) : Written :=
  Written.of pair.1.toList pair.2.toList

theorem onLine?_eq_map_barred? (line : List Char) :
    Written.onLine? line = (barred? line).map writtenOf := by
  unfold Written.onLine? barred?
  rcases line.splitOn '|' with _ | ⟨address, _ | ⟨expected, _ | ⟨more, rest⟩⟩⟩
  · rfl
  · rfl
  · simp only [Option.map_some, writtenOf, String.toList_ofList]
  · rfl

def addWritten (s : Scenario) (w : Written) : Except Error Scenario :=
  return s.add (← w.read)

theorem withTag_eq_addWritten (s : Scenario) (pair : String × String) :
    s.withTag pair.1 pair.2 = s.addWritten (writtenOf pair) := by
  rw [withTag, Written.pair_read]
  rfl

theorem addWritten_eq_ok_iff {s s' : Scenario} {w : Written} :
    s.addWritten w = .ok s' ↔ ∃ read, w.read = .ok read ∧ s.add read = s' := by
  rw [addWritten, bind_eq_ok_iff]
  simp only [pure, Except.pure, Except.ok.injEq]

theorem withTag_eq_error_iff {s : Scenario} {pair : String × String} {cause : Error} :
    s.withTag pair.1 pair.2 = .error cause ↔ (writtenOf pair).read = .error cause :=
  bind_pure_eq_error_iff

theorem accepts_iff {s : Scenario} {pair : String × String} :
    s.Accepts pair ↔ ∃ read, (writtenOf pair).read = .ok read := by
  simp only [Accepts, withTag_eq_addWritten, addWritten_eq_ok_iff]
  constructor
  · rintro ⟨s', read, hread, -⟩
    exact ⟨read, hread⟩
  · rintro ⟨read, hread⟩
    exact ⟨s.add read, read, hread, rfl⟩

/-- Whether a tag can be added does not depend on what was added before. -/
theorem accepts_congr {s s' : Scenario} {pair : String × String} :
    s.Accepts pair ↔ s'.Accepts pair := by
  rw [accepts_iff, accepts_iff]

/-! ## The first line that is refused -/

theorem onLine?_eq_some_iff_exists_barred {line : List Char} {w : Written} :
    Written.onLine? line = some w ↔ ∃ pair ∈ barred? line, writtenOf pair = w := by
  rw [onLine?_eq_map_barred?, Option.map_eq_some_iff]
  rfl

theorem firstFault_iff_firstRefused {s : Scenario} {lines : List (List Char)} {n : Nat}
    {line : List Char} {cause : Error} :
    FirstFault lines n line cause ↔ s.FirstRefused lines n line cause := by
  constructor
  · intro h
    induction h with
    | here hline hread =>
        obtain ⟨pair, hpair, rfl⟩ := onLine?_eq_some_iff_exists_barred.1 hline
        exact ⟨rfl, ⟨pair, hpair, withTag_eq_error_iff.2 hread⟩, by simp⟩
    | later hfirst _ ih =>
        refine ⟨ih.line_eq, ih.refused, ?_⟩
        rw [List.take_succ_cons, List.forall_mem_cons]
        refine ⟨?_, ih.accepted⟩
        intro pair hpair
        exact accepts_iff.2 (hfirst _ (onLine?_eq_some_iff_exists_barred.2 ⟨pair, hpair, rfl⟩))
  · intro h
    induction lines generalizing n with
    | nil => simpa using h.line_eq
    | cons first lines ih =>
        cases n with
        | zero =>
            obtain ⟨pair, hpair, hrefused⟩ := h.refused
            obtain rfl := Option.some.inj h.line_eq
            exact .here (onLine?_eq_some_iff_exists_barred.2 ⟨pair, hpair, rfl⟩)
              (withTag_eq_error_iff.1 hrefused)
        | succ n =>
            have haccepted := h.accepted
            rw [List.take_succ_cons, List.forall_mem_cons] at haccepted
            apply FirstFault.later
            · intro w hw
              obtain ⟨pair, hpair, rfl⟩ := onLine?_eq_some_iff_exists_barred.1 hw
              exact accepts_iff.1 (haccepted.1 pair hpair)
            · exact ih ⟨h.line_eq, h.refused, haccepted.2⟩

theorem atLine_of_ne_overflow {number : Nat} {line : List Char} {cause : Error}
    (h : cause ≠ .overflow) :
    atLine number line cause = .line number (String.ofList line) cause := by
  unfold atLine
  split
  · contradiction
  · rfl

theorem withTags_eq_error_iff {s : Scenario} {text : String} {e : Error} :
    s.withTags text = .error e ↔
      ∃ n line cause, s.FirstRefused (Text.lines text.toList) n line cause ∧
        e = atLine (n + 1) (Text.trim line) cause := by
  rw [withTags, bind_pure_eq_error_iff, readLines_eq_error_iff]
  simp only [firstFault_iff_firstRefused (s := s), Nat.add_comm 1]

/-! ## All lines -/

theorem ofText_eq_map_barredLines (text : String) :
    Written.ofText text = (barredLines text).map writtenOf := by
  rw [Written.ofText, barredLines, List.map_filterMap]
  congr 1
  funext line
  exact onLine?_eq_map_barred? line

theorem withEach_eq_foldlM_addWritten (s : Scenario) (pairs : List (String × String)) :
    s.withEach pairs = (pairs.map writtenOf).foldlM addWritten s := by
  simp only [withEach, withTag_eq_addWritten, List.foldlM_map]

theorem foldlM_addWritten_eq_ok_iff {s s' : Scenario} {ws : List Written} :
    ws.foldlM addWritten s = .ok s' ↔
      ∃ reads, List.Forall₂ (fun w read => Written.read w = .ok read) ws reads ∧
        reads.foldl add s = s' := by
  induction ws generalizing s with
  | nil => simp [pure, Except.pure]
  | cons w ws ih =>
      rw [List.foldlM_cons, bind_eq_ok_iff]
      constructor
      · rintro ⟨next, hnext, hrest⟩
        obtain ⟨read, hread, rfl⟩ := addWritten_eq_ok_iff.1 hnext
        obtain ⟨reads, hreads, rfl⟩ := ih.1 hrest
        exact ⟨read :: reads, .cons hread hreads, rfl⟩
      · rintro ⟨_, _ | ⟨hread, hreads⟩, rfl⟩
        exact ⟨_, addWritten_eq_ok_iff.2 ⟨_, hread, rfl⟩, ih.2 ⟨_, hreads, rfl⟩⟩

theorem withTags_eq_ok_iff {s s' : Scenario} {text : String} :
    s.withTags text = .ok s' ↔ (Written.ofText text).foldlM addWritten s = .ok s' := by
  rw [foldlM_addWritten_eq_ok_iff, withTags, bind_eq_ok_iff]
  simp only [readLines_eq_ok_iff, Written.ofText, pure, Except.pure, Except.ok.injEq]

theorem withTags_eq_ok_iff_withEach {s s' : Scenario} {text : String} :
    s.withTags text = .ok s' ↔ s.withEach (barredLines text) = .ok s' := by
  rw [withTags_eq_ok_iff, ofText_eq_map_barredLines, withEach_eq_foldlM_addWritten]

theorem exists_withEach_eq_ok_iff {s : Scenario} {pairs : List (String × String)} :
    (∃ s', s.withEach pairs = .ok s') ↔ ∀ pair ∈ pairs, s.Accepts pair := by
  induction pairs generalizing s with
  | nil => simp [withEach, pure, Except.pure]
  | cons pair pairs ih =>
      simp only [withEach, List.foldlM_cons, bind_eq_ok_iff, List.forall_mem_cons]
      constructor
      · rintro ⟨s', next, hnext, hrest⟩
        refine ⟨⟨next, hnext⟩, ?_⟩
        intro other hother
        exact accepts_congr.1 (ih.1 ⟨s', hrest⟩ other hother)
      · rintro ⟨⟨next, hnext⟩, haccepted⟩
        obtain ⟨s', hs'⟩ := ih.2 fun other hother => accepts_congr.1 (haccepted other hother)
        exact ⟨s', next, hnext, hs'⟩

/-! ## Texts put together -/

theorem trim_dropReturn (line : List Char) : Text.trim (Text.dropReturn line) = Text.trim line := by
  unfold Text.dropReturn
  rcases h : Text.dropLast? '\r' line with _ | rest
  · rfl
  · have hblank : ∀ c ∈ ['\r'], Text.isBlank c = true := by
      rw [List.forall_mem_singleton]
      decide
    rw [Text.eq_concat_of_dropLast? h, Text.trim_append_right hblank]
    rfl

theorem Written.onLine?_dropReturn (line : List Char) :
    Written.onLine? (Text.dropReturn line) = Written.onLine? line := by
  rw [← Written.onLine?_trim, trim_dropReturn, Written.onLine?_trim]

/-- What is written on the lines of a text is written between its line feeds: the
end of a line and a last line that is empty hold nothing. -/
theorem Written.ofText_eq (text : String) :
    Written.ofText text = (text.toList.splitOn '\n').filterMap Written.onLine? := by
  have hreturn : Written.onLine? ∘ Text.dropReturn = Written.onLine? :=
    funext Written.onLine?_dropReturn
  have hempty : Written.onLine? [] = none := rfl
  obtain ⟨pieces, last, hpieces⟩ : ∃ pieces last, text.toList.splitOn '\n' = pieces ++ [last] :=
    (List.eq_nil_or_concat' _).resolve_left (List.splitOn_ne_nil '\n' text.toList)
  rw [Written.ofText, Text.lines, hpieces]
  rw [List.filterMap_append, List.filterMap_append, List.dropLast_concat, List.filterMap_map,
    hreturn, List.getLast?_concat, Option.toList_some]
  by_cases hlast : last = []
  · simp [hlast, hempty]
  · simp [hlast]

theorem Written.ofText_append (a b : String) :
    Written.ofText (a ++ "\n" ++ b) = Written.ofText a ++ Written.ofText b := by
  have htext : (a ++ "\n" ++ b).toList = a.toList ++ '\n' :: b.toList := by simp
  rw [Written.ofText_eq, htext, List.splitOn_append_cons_self, List.filterMap_append,
    ← Written.ofText_eq, ← Written.ofText_eq]

theorem withTags_append_eq_ok_iff {s s' : Scenario} {a b : String} :
    s.withTags (a ++ "\n" ++ b) = .ok s' ↔
      ∃ next, s.withTags a = .ok next ∧ next.withTags b = .ok s' := by
  simp only [withTags_eq_ok_iff]
  rw [Written.ofText_append, List.foldlM_append, bind_eq_ok_iff]

/-! ## All or none -/

/-- The tags of a text are all added or none is.  Either each of its pairs can be
added by itself, and the text gives what they give one after the other, or one of
its lines is the first that is refused.  Then the text is refused with the number
of that line among all lines, the line without the blanks around it and the error
of its pair, whatever comes after it; but if that pair fails for a sum out of
range, so does the text.  Two texts with a line feed between them give what they
give one after the other. -/
theorem withTags_all_or_nothing (s : Scenario) (text : String) :
    ((∀ pair ∈ barredLines text, s.Accepts pair) ∨
      ∃ n line cause, s.FirstRefused (Text.lines text.toList) n line cause) ∧
    ((∀ pair ∈ barredLines text, s.Accepts pair) →
      ∃ s', s.withEach (barredLines text) = .ok s' ∧ s.withTags text = .ok s') ∧
    (∀ n line cause, s.FirstRefused (Text.lines text.toList) n line cause →
      (cause = .overflow → s.withTags text = .error .overflow) ∧
      (cause ≠ .overflow → ∃ e, s.withTags text = .error e ∧ e.isConfig = true ∧
        e = .line (n + 1) (String.ofList (Text.trim line)) cause ∧
        e.message = "ConfigError - line " ++ toString (n + 1) ++ " `" ++
          String.ofList (Text.trim line) ++ "`: " ++ cause.message)) ∧
    ∀ (other : String) (s' : Scenario), s.withTags (text ++ "\n" ++ other) = .ok s' ↔
      ∃ next, s.withTags text = .ok next ∧ next.withTags other = .ok s' := by
  refine ⟨?_, ?_, ?_, fun other s' => withTags_append_eq_ok_iff⟩
  · rcases h : s.withTags text with e | s'
    · obtain ⟨n, line, cause, hfirst, -⟩ := withTags_eq_error_iff.1 h
      exact .inr ⟨n, line, cause, hfirst⟩
    · exact .inl (exists_withEach_eq_ok_iff.1 ⟨s', withTags_eq_ok_iff_withEach.1 h⟩)
  · intro haccepted
    obtain ⟨s', hs'⟩ := exists_withEach_eq_ok_iff.2 haccepted
    exact ⟨s', hs', withTags_eq_ok_iff_withEach.2 hs'⟩
  · intro n line cause hfirst
    have herror := withTags_eq_error_iff.2 ⟨n, line, cause, hfirst, rfl⟩
    constructor
    · rintro rfl
      exact herror
    · intro hcause
      refine ⟨_, herror, ?_⟩
      rw [atLine_of_ne_overflow hcause]
      exact ⟨rfl, rfl, rfl⟩

def spaced : String :=
  "\n %DB9:6:INT | INT;1 \r\nno pair\n%DB9:8:BOOL|BOOL;true|\n%DB9:8:INT|INT;2"

/-- The third line is the first that is refused, the fourth is wrong as well. -/
def twiceWrong : String :=
  "%DB9:6:INT | INT;1\nno pair\n\t%DB9:8:INT | INT;x \r\n%DB9 | INT;2"

theorem twiceWrong_refused :
    (∃ s', (new 1 (.ofMillis 10)).withEach (barredLines spaced) = .ok s' ∧
      (new 1 (.ofMillis 10)).withTags spaced = .ok s') ∧
    ∃ e, (new 1 (.ofMillis 10)).withTags twiceWrong = .error e ∧ e.isConfig = true ∧
      e = .line 3 "%DB9:8:INT | INT;x" (.config (.invalidValue "INT" "x")) := by
  have hspaced : ∀ pair ∈ barredLines spaced, (new 1 (.ofMillis 10)).Accepts pair := by
    decide +kernel
  have hfirst : (new 1 (.ofMillis 10)).FirstRefused (Text.lines twiceWrong.toList) 2
      "\t%DB9:8:INT | INT;x ".toList (.config (.invalidValue "INT" "x")) := by
    constructor
    · decide +kernel
    · decide +kernel
    · decide +kernel
  refine ⟨(withTags_all_or_nothing _ spaced).2.1 hspaced, ?_⟩
  obtain ⟨e, he, hconfig, hline, -⟩ :=
    ((withTags_all_or_nothing _ twiceWrong).2.2.1 _ _ _ hfirst).2 (by decide)
  have htrim : String.ofList (Text.trim "\t%DB9:8:INT | INT;x ".toList) =
      "%DB9:8:INT | INT;x" := by
    decide +kernel
  rw [htrim] at hline
  exact ⟨e, he, hconfig, hline⟩

/-- A text with a pair that cannot be added, and yet no error about its line. -/
theorem longest_period_unlocated :
    ¬ (∀ pair ∈ barredLines "%DB9:6:INT | INT;1\n%DB9:8:TIME | TIME;P213503982334601DT25216S",
      (new 1 (.ofMillis 10)).Accepts pair) ∧
    ∃ e, (new 1 (.ofMillis 10)).withTags
        "%DB9:6:INT | INT;1\n%DB9:8:TIME | TIME;P213503982334601DT25216S" = .error e ∧
      e.isConfig = false := by
  refine ⟨?_, .overflow, ?_, rfl⟩
  · decide +kernel
  · decide +kernel

end DataBlock.Scenario
