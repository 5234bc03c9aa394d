import ComponentCompiler.Proofs.Section.Tiling

/-!
# Markers and lines

The search for markers goes from line to line: `markers_by_line`.
-/

namespace ComponentCompiler

open Text

namespace Marker

section

variable {c stop : Cursor} {m : Marker}

theorem ne_nil_of_read (read : read? c = some (m, stop)) : c.rest ≠ [] := by
  obtain ⟨text, passes, spelled, -⟩ := read?_eq_some.1 read
  rw [passes.rest]
  intro none
  exact spelled.ne_nil (List.append_eq_nil_iff.1 none).1

theorem go_eq_go {n k c} (enough : c.rest.length < n) (enough' : c.rest.length < k) :
    findAll.go n c = findAll.go k c := by
  induction n generalizing c k with
  | zero => omega
  | succ n ih =>
    cases k with
    | zero => omega
    | succ k =>
      unfold findAll.go
      split
      · rfl
      · rename_i some
        split
        · rename_i marker stop read
          have shorter := length_next_of_read read
          exact congrArg _ (ih (by omega) (by omega))
        · have shorter := length_skipLine (c := c) (by simpa using some)
          exact ih (by omega) (by omega)

theorem findAll_nil (past : c.rest = []) : findAll c = [] := by
  simp [findAll, findAll.go, past]

theorem findAll_read (read : read? c = some (m, stop)) : findAll c = ⟨m, c, stop⟩ :: findAll stop.next := by
  have some : c.rest.isEmpty = false := by simpa using ne_nil_of_read read
  have shorter := length_next_of_read read
  have first : findAll c = ⟨m, c, stop⟩ :: findAll.go c.rest.length stop.next := by
    simp [findAll, findAll.go, some, read]
  rw [first, go_eq_go shorter (Nat.lt_succ_self _)]
  rfl

theorem findAll_unread (some : c.rest ≠ []) (unread : read? c = none) : findAll c = findAll c.skipLine := by
  have shorter := length_skipLine some
  have first : findAll c = findAll.go c.rest.length c.skipLine := by
    simp [findAll, findAll.go, some, unread]
  rw [first, go_eq_go shorter (Nat.lt_succ_self _)]
  rfl

end

end Marker

/-- The text ends where a line starts: it is empty or ends with a line feed. -/
def WholeLines (text : List Char) : Prop := ∀ c ∈ text.getLast?, c = '\n'

instance (text : List Char) : Decidable (WholeLines text) :=
  decidable_of_iff (text.getLast?.all (· = '\n') = true) (by
    unfold WholeLines
    cases text.getLast? <;> simp)

theorem wholeLines_nil : WholeLines [] := nofun

theorem WholeLines.behind_feed {text} (front : List Char) (starts : WholeLines text) :
    WholeLines (front ++ '\n' :: text) := by
  intro c last
  rw [List.getLast?_append, List.getLast?_cons] at last
  cases behind : text.getLast? with
  | none =>
    rw [behind] at last
    exact (Option.some.inj last).symm
  | some d =>
    rw [behind] at last
    exact Option.some.inj last ▸ starts d behind

theorem WholeLines.split {text} (starts : WholeLines text) (some : text ≠ []) :
    ∃ front rest, text = front ++ '\n' :: rest ∧ '\n' ∉ front ∧ WholeLines rest := by
  induction text with
  | nil => exact absurd rfl some
  | cons x text ih =>
    by_cases feed : x = '\n'
    · subst feed
      refine ⟨[], text, rfl, List.not_mem_nil, fun c last => starts c ?_⟩
      rw [List.getLast?_cons, Option.mem_def.1 last]
      rfl
    · cases text with
      | nil => exact absurd (starts x rfl) feed
      | cons y text =>
        have later : WholeLines (y :: text) := fun c last => starts c (by rwa [List.getLast?_cons_cons])
        obtain ⟨front, rest, split, whole, behind⟩ := ih later (List.cons_ne_nil _ _)
        refine ⟨x :: front, rest, by rw [split, List.cons_append], ?_, behind⟩
        simpa [Ne.symm feed] using whole

/-- `line` is a line of the text, without its line feed, and starts at byte `pos`. -/
def LineAt (text : List Char) (pos : Nat) (line : List Char) : Prop :=
  ∃ before after, text = before ++ (line ++ after) ∧ WholeLines before ∧ '\n' ∉ line ∧ EndsLine after ∧
    byteLength before = pos

namespace Text

theorem eq_of_byteLength_eq {a b x y} (split : a ++ x = b ++ y) (length : byteLength a = byteLength b) :
    a = b ∧ x = y := by
  induction a generalizing b with
  | nil =>
    cases b with
    | nil => exact ⟨rfl, split⟩
    | cons d b =>
      have size := d.utf8Size_pos
      simp only [byteLength_nil, byteLength_cons] at length
      omega
  | cons c a ih =>
    cases b with
    | nil =>
      have size := c.utf8Size_pos
      simp only [byteLength_nil, byteLength_cons] at length
      omega
    | cons d b =>
      obtain ⟨rfl, later⟩ := List.cons.inj split
      obtain ⟨rfl, rest⟩ := ih later (Nat.add_left_cancel length)
      exact ⟨rfl, rest⟩

namespace Cursor

variable {c d : Cursor} {line : List Char}

theorem takeWhile_line (passes : c.Passes line d) (whole : '\n' ∉ line) (ends : EndsLine d.rest) :
    c.dropWhile (· ≠ '\n') = d ∧ c.takeWhile (· ≠ '\n') = line := by
  refine passes.dropWhile_eq (fun x mem => decide_eq_true fun feed => whole (feed ▸ mem)) fun x first => ?_
  simp [ends x first]

theorem skipLine_eq_next (passes : c.Passes line d) (whole : '\n' ∉ line) (ends : EndsLine d.rest) :
    c.skipLine = d.next := by
  rw [skipLine, (takeWhile_line passes whole ends).1]

end Cursor

end Text

theorem LineAt.unique {text line other pos} (one : LineAt text pos line) (two : LineAt text pos other) :
    line = other := by
  obtain ⟨before, after, rfl, -, whole, ends, length⟩ := one
  obtain ⟨before', after', split, -, whole', ends', length'⟩ := two
  obtain ⟨-, same⟩ := eq_of_byteLength_eq split (length.trans length'.symm)
  have first := (Cursor.takeWhile_line (c := ⟨line ++ after, 0⟩) (Cursor.passes_of_rest rfl) whole ends).2
  have second := (Cursor.takeWhile_line (c := ⟨line ++ after, 0⟩) (Cursor.passes_of_rest same) whole' ends').2
  exact first.symm.trans second

namespace Marker

theorem isNamePart_ne_feed {c} (part : isNamePart c = true) : c ≠ '\n' := by
  rintro rfl
  cases part

theorem inlineBlank_ne_feed {c} (blank : isInlineBlank c = true) : c ≠ '\n' := by
  rintro rfl
  cases blank

/-- The language of the marker ends on the line where it starts. -/
def OnOneLine (m : Marker) : Prop := ∀ lang ∈ m.lang, '\n' ∉ lang.toList

instance (m : Marker) : Decidable m.OnOneLine := inferInstanceAs (Decidable (∀ lang ∈ m.lang, _))

theorem Spells.onOneLine {m : Marker} {text} (spelled : m.Spells text) : m.OnOneLine ↔ '\n' ∉ text := by
  obtain ⟨blanks, lang, ending, blank, name, value, ⟨blanks', back, blank', returned, rfl⟩, rfl⟩ := spelled
  have one : '\n' ∉ blanks := fun mem => inlineBlank_ne_feed (blank _ mem) rfl
  have two : '\n' ∉ m.name.toList := fun mem => isNamePart_ne_feed (name.parts _ mem) rfl
  have three : '\n' ∉ blanks' := fun mem => inlineBlank_ne_feed (blank' _ mem) rfl
  have four : '\n' ∉ back := by rcases returned with rfl | rfl <;> simp
  unfold OnOneLine
  cases given : m.lang with
  | none =>
    rw [given] at value
    subst value
    simp [one, two, three, four]
  | some written =>
    rw [given] at value
    obtain ⟨spaces, -, space, -, rfl⟩ := value
    have five : '\n' ∉ spaces := fun mem => inlineBlank_ne_feed (space _ mem) rfl
    simp [one, two, three, four, five]

/-- The line opens a language that does not end on it. -/
def OpensLang (line : List Char) : Prop :=
  ∃ blanks name spaces value, (∀ c ∈ blanks, isInlineBlank c = true) ∧ Template.Outline.IsName name ∧ spaces ≠ [] ∧
    (∀ c ∈ spaces, isInlineBlank c = true) ∧ '"' ∉ value ∧
    line = "#!".toList ++ (blanks ++ (name.toList ++ (spaces ++ ("lang=\"".toList ++ value))))

theorem Spells.opensLang {m : Marker} {text} (spelled : m.Spells text) (broken : ¬ m.OnOneLine) :
    ∃ line rest, text = line ++ '\n' :: rest ∧ '\n' ∉ line ∧ OpensLang line := by
  obtain ⟨blanks, lang, ending, blank, name, value, -, rfl⟩ := spelled
  cases given : m.lang with
  | none => simp [OnOneLine, given] at broken
  | some written =>
    rw [given] at value
    obtain ⟨spaces, some, space, free, rfl⟩ := value
    have feed : '\n' ∈ written.toList := by simpa [OnOneLine, given] using broken
    obtain ⟨front, back, split, whole⟩ := List.eq_append_cons_of_mem feed
    have one : '\n' ∉ blanks := fun mem => inlineBlank_ne_feed (blank _ mem) rfl
    have two : '\n' ∉ m.name.toList := fun mem => isNamePart_ne_feed (name.parts _ mem) rfl
    have three : '\n' ∉ spaces := fun mem => inlineBlank_ne_feed (space _ mem) rfl
    refine ⟨"#!".toList ++ (blanks ++ (m.name.toList ++ (spaces ++ ("lang=\"".toList ++ front)))),
      back ++ '"' :: ending, ?_, ?_, ?_⟩
    · simp [split]
    · simp [one, two, three, whole]
    · refine ⟨blanks, m.name, spaces, front, blank, name, some, space, fun quote => free ?_, rfl⟩
      rw [split]
      exact List.mem_append_left _ quote

section

variable {c : Cursor}

/-- From `c` on whole lines lead to the marker, which is read there. -/
def Found.Behind (c : Cursor) (m : Found) : Prop :=
  read? m.start = some (m.marker, m.stop) ∧ ∃ before, c.Passes before m.start ∧ WholeLines before

theorem Found.Behind.line {m : Found} {d front} (behind : m.Behind d) (passes : c.Passes (front ++ ['\n']) d) :
    m.Behind c := by
  obtain ⟨read, before, there, whole⟩ := behind
  refine ⟨read, front ++ '\n' :: before, ?_, whole.behind_feed front⟩
  simpa using passes.append there

theorem findAll_behind {m} (mem : m ∈ findAll c) : m.Behind c := by
  -- Whether a marker is read or a line is skipped, the search goes on behind a line feed or ends.
  induction length : c.rest.length using Nat.strongRecOn generalizing c with
  | ind n ih =>
    by_cases past : c.rest = []
    · rw [findAll_nil past] at mem
      cases mem
    cases read : read? c with
    | some result =>
      obtain ⟨marker, stop⟩ := result
      have shorter := length_next_of_read read
      obtain ⟨line, passes, -, ends⟩ := read?_eq_some.1 read
      rw [findAll_read read] at mem
      rcases List.mem_cons.1 mem with rfl | found
      · exact ⟨read, [], .nil c, wholeLines_nil⟩
      · obtain ⟨feed, fed, last⟩ := Found.passes_body (m := ⟨marker, c, stop⟩) ends
        rcases last with rfl | ⟨-, none⟩
        · exact (ih _ (by omega) found rfl).line (passes.append fed)
        · have nothing : findAll stop.next = [] := findAll_nil none
          rw [nothing] at found
          cases found
    | none =>
      have shorter := length_skipLine past
      obtain ⟨front, feed, passes, -, fed⟩ := c.passes_skipLine
      rw [findAll_unread past read] at mem
      rcases fed with rfl | ⟨-, none⟩
      · exact (ih _ (by omega) mem rfl).line passes
      · rw [findAll_nil none] at mem
        cases mem

theorem mem_findAll_of_skipLine {m} (lines : ∀ m ∈ findAll c, m.marker.OnOneLine) (some : c.rest ≠ [])
    (mem : m ∈ findAll c.skipLine) : m ∈ findAll c := by
  cases read : read? c with
  | some result =>
    obtain ⟨marker, stop⟩ := result
    obtain ⟨line, passes, spelled, ends⟩ := read?_eq_some.1 read
    rw [findAll_read read] at lines ⊢
    have whole := spelled.onOneLine.1 (lines _ List.mem_cons_self)
    rw [Cursor.skipLine_eq_next passes whole ends] at mem
    exact List.mem_cons_of_mem _ mem
  | none =>
    rw [findAll_unread some read]
    exact mem

theorem mem_findAll_of_line {before line after k} (lines : ∀ m ∈ findAll c, m.marker.OnOneLine)
    (split : c.rest = before ++ (line ++ after)) (whole : WholeLines before) (ends : EndsLine after)
    (spelled : k.Spells line) :
    ∃ m ∈ findAll c, m.marker = k ∧
      m.span = ⟨c.pos + byteLength before, c.pos + byteLength before + byteLength line⟩ := by
  -- The lines before it are passed one by one, as none of them is part of a longer marker.
  induction length : before.length using Nat.strongRecOn generalizing c before with
  | ind n ih =>
    by_cases first : before = []
    · subst first
      have read := read?_eq_some.2 ⟨line, Cursor.passes_of_rest split, spelled, ends⟩
      exact ⟨_, by rw [findAll_read read]; exact List.mem_cons_self, rfl, rfl⟩
    · obtain ⟨front, rest, rfl, unbroken, behind⟩ := whole.split first
      have some : c.rest ≠ [] := by
        rw [split]
        simp
      have passes : c.Passes front ⟨'\n' :: (rest ++ (line ++ after)), c.pos + byteLength front⟩ :=
        ⟨by simpa using split, rfl⟩
      have next : c.skipLine = ⟨rest ++ (line ++ after), c.pos + byteLength front + 1⟩ :=
        Cursor.skipLine_eq_next passes unbroken fun _ feed => (Option.some.inj feed).symm
      obtain ⟨m, mem, marker, span⟩ := ih rest.length (by rw [← length]; simp; omega)
        (c := c.skipLine) (fun m mem => lines m (mem_findAll_of_skipLine lines some mem)) (by rw [next]) behind rfl
      refine ⟨m, mem_findAll_of_skipLine lines some mem, marker, ?_⟩
      have feed : Char.utf8Size '\n' = 1 := rfl
      rw [span, next]
      simp only [byteLength_append, byteLength_cons, feed, Span.mk.injEq]
      omega

end

end Marker

namespace Document

/-- Markers are recognised line by line. -/
structure LineByLine (source : String) : Prop where
  /-- A line is taken for a marker exactly when it is written like one. -/
  taken : ∀ {pos : Nat} {line : List Char}, LineAt source.toList pos line → ∀ k : Marker,
    (∃ m ∈ markers source, m.marker = k ∧ m.start.pos = pos) ↔ k.Spells line
  /-- A marker covers a line and nothing else. -/
  covers : ∀ m ∈ markers source, ∃ line, LineAt source.toList m.start.pos line ∧
    m.span = ⟨m.start.pos, m.start.pos + byteLength line⟩

section

variable {source : String} {m : Marker.Found}

theorem exists_spelled (mem : m ∈ markers source) : ∃ before text, source.toList = before ++ (text ++ m.stop.rest) ∧
    WholeLines before ∧ m.marker.Spells text ∧ EndsLine m.stop.rest ∧ byteLength before = m.start.pos ∧
    m.span = ⟨m.start.pos, m.start.pos + byteLength text⟩ := by
  obtain ⟨read, before, there, whole⟩ := Marker.findAll_behind mem
  obtain ⟨text, passes, spelled, ends⟩ := Marker.read?_eq_some.1 read
  refine ⟨before, text, ?_, whole, spelled, ends, ?_, ?_⟩
  · have split : source.toList = before ++ m.start.rest := there.rest
    rw [split, passes.rest]
  · have pos : m.start.pos = 0 + byteLength before := there.pos
    rw [pos, Nat.zero_add]
  · rw [← passes.pos]
    rfl

theorem exists_line (mem : m ∈ markers source) (line : m.marker.OnOneLine) :
    ∃ text, LineAt source.toList m.start.pos text ∧ m.marker.Spells text ∧
      m.span = ⟨m.start.pos, m.start.pos + byteLength text⟩ := by
  obtain ⟨before, text, split, whole, spelled, ends, length, span⟩ := exists_spelled mem
  exact ⟨text, ⟨before, _, split, whole, spelled.onOneLine.1 line, ends, length⟩, spelled, span⟩

theorem lineByLine_of_onOneLine (lines : ∀ m ∈ markers source, m.marker.OnOneLine) : LineByLine source where
  taken := by
    intro pos line here k
    constructor
    · rintro ⟨m, mem, rfl, rfl⟩
      obtain ⟨text, there, spelled, -⟩ := exists_line mem (lines m mem)
      exact here.unique there ▸ spelled
    · intro spelled
      obtain ⟨before, after, split, whole, -, ends, length⟩ := here
      obtain ⟨m, mem, marker, span⟩ :=
        Marker.mem_findAll_of_line (c := .start source 0) lines split whole ends spelled
      have start : m.start.pos = 0 + byteLength before := congrArg Span.start span
      exact ⟨m, mem, marker, by rw [start, length, Nat.zero_add]⟩
  covers := by
    intro m mem
    obtain ⟨text, there, -, span⟩ := exists_line mem (lines m mem)
    exact ⟨text, there, span⟩

theorem LineByLine.onOneLine (byLine : LineByLine source) (mem : m ∈ markers source) : m.marker.OnOneLine := by
  obtain ⟨line, ⟨before, after, split, -, unbroken, -, length⟩, span⟩ := byLine.covers m mem
  obtain ⟨before', text, split', -, spelled, -, length', span'⟩ := exists_spelled mem
  -- The line and the text of the marker start at the same place and have the same length.
  have same : byteLength line = byteLength text := by
    have stops := congrArg Span.stop (span.symm.trans span')
    exact Nat.add_left_cancel stops
  obtain ⟨-, behind⟩ := eq_of_byteLength_eq (split.symm.trans split') (length.trans length'.symm)
  obtain ⟨rfl, -⟩ := eq_of_byteLength_eq behind same
  exact spelled.onOneLine.2 unbroken

theorem onOneLine_of_closed (closed : ∀ pos line, LineAt source.toList pos line → ¬ Marker.OpensLang line)
    (mem : m ∈ markers source) : m.marker.OnOneLine := by
  obtain ⟨before, text, split, whole, spelled, -, length, -⟩ := exists_spelled mem
  apply Classical.byContradiction
  intro broken
  obtain ⟨line, rest, rfl, unbroken, opens⟩ := spelled.opensLang broken
  refine closed _ line ⟨before, '\n' :: (rest ++ m.stop.rest), ?_, whole, unbroken, ?_, length⟩ opens
  · simpa using split
  · exact fun c first => (Option.some.inj first).symm

end

/-- Markers are recognised line by line if and only if no language of a marker runs over the end of its line. This is so
where every line ends the languages that it opens. -/
theorem markers_by_line (source : String) :
    (LineByLine source ↔ ∀ m ∈ markers source, m.marker.OnOneLine) ∧
      ((∀ pos line, LineAt source.toList pos line → ¬ Marker.OpensLang line) → LineByLine source) := by
  refine ⟨⟨fun byLine m mem => byLine.onOneLine mem, lineByLine_of_onOneLine⟩, fun closed => ?_⟩
  exact lineByLine_of_onOneLine fun m mem => onOneLine_of_closed closed mem

/-- A language that is open at the end of a line does no harm while it makes no marker. -/
theorem markers_by_line_open_lang : LineByLine "#! a lang=\"x\nb\" c\n#! d\n" ∧
    (markers "#! a lang=\"x\nb\" c\n#! d\n").map Marker.Found.span = [⟨18, 22⟩] :=
  ⟨(markers_by_line _).1.2 (by decide), by decide⟩

/-- A quote on a later line ends a language, so a marker may take in two lines neither of which is written like one. -/
theorem lang_over_two_lines : ¬ LineByLine "#! style lang=\"a\nb\"\n" := by
  intro byLine
  have found : ∃ m ∈ markers "#! style lang=\"a\nb\"\n", m.marker = ⟨"style", some "a\nb"⟩ := by decide
  obtain ⟨m, mem, marker⟩ := found
  have unbroken := byLine.onOneLine mem "a\nb" (by rw [marker]; rfl)
  exact unbroken (by decide)

end Document

end ComponentCompiler
