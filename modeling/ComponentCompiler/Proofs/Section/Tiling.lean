import ComponentCompiler.Proofs.Section.Spelling
import ComponentCompiler.Section.Cut

/-!
# A file is made of its sections

Main statement: `cut_tiles`.
-/

namespace ComponentCompiler

open Text

/-- No line that starts in `text`, which `rest` follows, is a marker. -/
def Unmarked (text rest : List Char) : Prop :=
  ∀ before line, text = before ++ line → line ≠ [] → (∀ c ∈ before.getLast?, c = '\n') →
    ∀ (m : Marker) (spelled behind : List Char), line ++ rest = spelled ++ behind → m.Spells spelled → ¬ EndsLine behind

theorem unmarked_nil (rest : List Char) : Unmarked [] rest := by
  intro before line split more
  exact absurd (List.append_eq_nil_iff.1 split.symm).2 more

theorem Unmarked.line {front feed text rest} (whole : '\n' ∉ front) (fed : feed = ['\n'] ∨ feed = [] ∧ text = [])
    (here : ∀ (m : Marker) (spelled behind : List Char), front ++ feed ++ text ++ rest = spelled ++ behind →
      m.Spells spelled → ¬ EndsLine behind)
    (plain : Unmarked text rest) : Unmarked (front ++ feed ++ text) rest := by
  intro before line split more starts
  -- A line starts with the text, or behind a line feed, and the first of these is `feed`.
  by_cases first : before = []
  · subst first
    rwa [← List.nil_append line, ← split]
  · have last : before.getLast? = some '\n' := by
      have found := List.getLast?_eq_some_getLast first
      rw [found, starts _ found]
    have inside : '\n' ∈ before := List.mem_of_getLast? last
    rw [List.append_assoc] at split
    rcases List.append_eq_append_iff.1 split with ⟨past, rfl, rest'⟩ | ⟨past, rfl, -⟩
    · rcases fed with rfl | ⟨rfl, rfl⟩
      · cases past with
        | nil => exact absurd (by simpa using inside) whole
        | cons c past =>
          obtain ⟨rfl, rfl⟩ := List.cons.inj rest'
          refine plain past line rfl more fun c mem => ?_
          refine starts c ?_
          rw [List.getLast?_append, List.getLast?_cons, Option.mem_def.1 mem]
          rfl
      · exact absurd (List.append_eq_nil_iff.1 rest'.symm).2 more
    · exact absurd (List.mem_append_left _ inside) whole

namespace Text.Cursor

/-- The rest of a line has no line feed but the one at its end, which only the last line of a text may lack. -/
theorem passes_skipLine (c : Cursor) : ∃ front feed, c.Passes (front ++ feed) c.skipLine ∧ '\n' ∉ front ∧
    (feed = ['\n'] ∨ feed = [] ∧ c.skipLine.rest = []) := by
  have passed := c.passes_dropWhile (· ≠ '\n')
  have within : ∀ x ∈ c.rest.takeWhile (· ≠ '\n'), decide (x ≠ '\n') = true := List.all_eq_true.1 List.all_takeWhile
  have whole : '\n' ∉ c.rest.takeWhile (· ≠ '\n') := fun mem => by simpa using within '\n' mem
  have stops := c.dropWhile_stops (· ≠ '\n')
  unfold skipLine
  generalize c.dropWhile (· ≠ '\n') = stop at passed stops
  cases behind : stop.rest with
  | nil =>
    have stays : stop.next = stop := by simp [next, behind]
    exact ⟨_, [], by rwa [stays, List.append_nil], whole, .inr ⟨rfl, by rw [stays, behind]⟩⟩
  | cons x rest =>
    obtain rfl : x = '\n' := by simpa [behind] using stops
    exact ⟨_, ['\n'], passed.append (next_of_cons behind), whole, .inl rfl⟩

theorem Leads.to_stop {c d stop : Cursor} (leads : c.Leads d) (ends : c.Leads stop) (past : stop.rest = []) :
    d.Leads stop := by
  obtain ⟨text, passes⟩ := ends
  obtain rfl : c.rest = text := by rw [passes.rest, past, List.append_nil]
  have all := c.passes_skip c.rest.length
  rw [List.take_length] at all
  exact passes.unique all ▸ leads.to_end

end Text.Cursor

namespace Marker

theorem Spells.ne_nil {m : Marker} {text} (spelled : m.Spells text) : text ≠ [] := by
  obtain ⟨blanks, lang, ending, -, -, -, -, rfl⟩ := spelled
  exact List.cons_ne_nil _ _

theorem not_spelled_of_read? {c} (unread : read? c = none) (m : Marker) (spelled behind : List Char)
    (split : c.rest = spelled ++ behind) (spells : m.Spells spelled) : ¬ EndsLine behind := by
  intro ends
  have read := read?_eq_some.2
    ⟨spelled, (⟨split, rfl⟩ : c.Passes spelled ⟨behind, c.pos + byteLength spelled⟩), spells, ends⟩
  rw [unread] at read
  cases read

/-- From the line start `c` on, these are the markers. -/
inductive Marked : Cursor → List Found → Prop where
  | nil {c : Cursor} (plain : Unmarked c.rest []) : Marked c []
  | cons {c : Cursor} {m : Found} {text line : List Char} {found : List Found} (before : c.Passes text m.start)
      (plain : Unmarked text m.start.rest) (passes : m.start.Passes line m.stop) (spelled : m.marker.Spells line)
      (ends : EndsLine m.stop.rest) (others : Marked m.body found) : Marked c (m :: found)

theorem Marked.line {c found} (unread : read? c = none) (marked : Marked c.skipLine found) : Marked c found := by
  obtain ⟨front, feed, passes, whole, fed⟩ := c.passes_skipLine
  cases marked with
  | nil plain =>
    refine .nil ?_
    rw [passes.rest]
    refine plain.line whole fed fun m spelled behind split => ?_
    rw [List.append_nil, ← passes.rest] at split
    exact not_spelled_of_read? unread m spelled behind split
  | cons before plain line spelled ends others =>
    rename_i m text spelling found
    refine .cons (passes.append before) (plain.line whole ?_ fun m spelled behind split => ?_) line spelled ends others
    · exact fed.imp_right fun ⟨unfed, past⟩ => ⟨unfed, (List.append_eq_nil_iff.1 (before.rest.symm.trans past)).1⟩
    · rw [← (passes.append before).rest] at split
      exact not_spelled_of_read? unread m spelled behind split

theorem length_skipLine {c : Cursor} (some : c.rest ≠ []) : c.skipLine.rest.length < c.rest.length := by
  obtain ⟨front, feed, passes, -, fed⟩ := c.passes_skipLine
  have split := congrArg List.length passes.rest
  have left := List.length_pos_iff.2 some
  rw [List.length_append, List.length_append] at split
  rcases fed with rfl | ⟨rfl, past⟩
  · rw [List.length_singleton] at split
    omega
  · simp only [past, List.length_nil] at split ⊢
    omega

theorem length_next_of_read {c stop m} (read : read? c = some (m, stop)) : stop.next.rest.length < c.rest.length := by
  obtain ⟨text, passes, spelled, -⟩ := read?_eq_some.1 read
  have split := congrArg List.length passes.rest
  have written := List.length_pos_iff.2 spelled.ne_nil
  have next := (Cursor.leads_next stop).length_le
  rw [List.length_append] at split
  omega

theorem findAll_marked (c : Cursor) : Marked c (findAll c) := by
  have run : ∀ n c, c.rest.length < n → Marked c (findAll.go n c) := by
    intro n
    induction n with
    | zero => intro c bound; omega
    | succ n ih =>
      intro c bound
      unfold findAll.go
      split
      · rename_i past
        exact .nil (by simpa [List.isEmpty_iff.1 past] using unmarked_nil [])
      · rename_i some
        split
        · rename_i marker stop read
          obtain ⟨line, passes, spelled, ends⟩ := read?_eq_some.1 read
          have shorter := length_next_of_read read
          exact .cons (.nil c) (unmarked_nil _) passes spelled ends (ih stop.next (by omega))
        · rename_i unread
          have shorter := length_skipLine (c := c) (by simpa using some)
          exact (ih _ (by omega)).line unread
  exact run _ c (Nat.lt_succ_self _)

end Marker

/-- The text from byte `pos` on is the lines of markers, each with a line feed and the content of its section behind
it. Only at the end of the text the line feed may be missing. -/
inductive Tiled : Nat → List Char → List Section → Prop where
  | nil (pos : Nat) : Tiled pos [] []
  | cons {pos : Nat} {s : Section} {line feed rest : List Char} {sections : List Section}
      (spelled : Marker.Spells ⟨s.name, s.lang⟩ line)
      (fed : feed = ['\n'] ∨ feed = [] ∧ s.content.toList ++ rest = [])
      (marker : s.markerSpan = ⟨pos, pos + byteLength line⟩)
      (content : s.contentSpan =
        ⟨pos + byteLength (line ++ feed), pos + byteLength (line ++ feed) + byteLength s.content.toList⟩)
      (plain : Unmarked s.content.toList rest) (others : Tiled s.contentSpan.stop rest sections) :
      Tiled pos (line ++ feed ++ (s.content.toList ++ rest)) (s :: sections)

theorem Marker.Found.passes_body {m : Marker.Found} (ends : EndsLine m.stop.rest) :
    ∃ feed, m.stop.Passes feed m.body ∧ (feed = ['\n'] ∨ feed = [] ∧ m.body.rest = []) := by
  unfold Marker.Found.body
  cases behind : m.stop.rest with
  | nil =>
    have stays : m.stop.next = m.stop := by simp [Cursor.next, behind]
    exact ⟨[], by rw [stays]; exact .nil _, .inr ⟨rfl, by rw [stays, behind]⟩⟩
  | cons x rest =>
    obtain rfl : x = '\n' := ends x (by simp [behind])
    exact ⟨['\n'], Cursor.next_of_cons behind, .inl rfl⟩

theorem Section.ofMarker_tiled {m stop line content sections} (passes : m.start.Passes line m.stop)
    (spelled : m.marker.Spells line) (ends : EndsLine m.stop.rest) (body : m.body.Passes content stop)
    (plain : Unmarked content stop.rest) (others : Tiled stop.pos stop.rest sections) :
    Tiled m.start.pos m.start.rest (Section.ofMarker m stop :: sections) := by
  obtain ⟨feed, fed, last⟩ := m.passes_body ends
  have written : (Section.ofMarker m stop).content.toList = content := by
    simp [Section.ofMarker, body.upTo]
  have split : m.start.rest = line ++ feed ++ ((Section.ofMarker m stop).content.toList ++ stop.rest) := by
    rw [written, (passes.append fed).rest, body.rest]
  rw [split]
  refine .cons spelled ?_ ?_ ?_ (written ▸ plain) others
  · rcases last with single | ⟨unfed, past⟩
    · exact .inl single
    · exact .inr ⟨unfed, by rw [written, ← body.rest, past]⟩
  · rw [← passes.pos]
    rfl
  · rw [written, ← (passes.append fed).pos, ← body.pos]
    rfl

namespace Document

def firstStart (stop : Cursor) : List Marker.Found → Cursor
  | [] => stop
  | m :: _ => m.start

theorem sections_cons (stop : Cursor) (m : Marker.Found) (found : List Marker.Found) :
    sections stop (m :: found) = Section.ofMarker m (firstStart stop found) :: sections stop found := by
  cases found <;> rfl

theorem sections_tiled {c stop found} (marked : Marker.Marked c found) (leads : c.Leads stop)
    (past : stop.rest = []) : ∃ leading, c.Passes leading (firstStart stop found) ∧
      Unmarked leading (firstStart stop found).rest ∧
      Tiled (firstStart stop found).pos (firstStart stop found).rest (sections stop found) := by
  induction marked with
  | nil plain =>
    obtain ⟨text, passes⟩ := leads
    refine ⟨text, passes, ?_, ?_⟩
    · rw [passes.rest, past, List.append_nil] at plain
      rwa [firstStart, past]
    · rw [firstStart, past]
      exact .nil _
  | cons before plain passes spelled ends others ih =>
    rename_i c m text line found
    obtain ⟨feed, fed, -⟩ := m.passes_body ends
    have behind := (before.append (passes.append fed)).leads
    obtain ⟨content, body, unmarked, tiled⟩ := ih (behind.to_stop leads past)
    refine ⟨text, before, plain, ?_⟩
    rw [sections_cons]
    exact Section.ofMarker_tiled passes spelled ends body unmarked tiled

end Document

theorem slice_middle (a b c : List Char) :
    slice ⟨byteLength a, byteLength a + byteLength b⟩ 0 (a ++ (b ++ c)) = b := by
  have start : slice ⟨byteLength a, byteLength a + byteLength b⟩ 0 (a ++ (b ++ c)) =
      slice ⟨byteLength a, byteLength a + byteLength b⟩ (byteLength a) (b ++ c) := by
    rw [slice_before (b ++ c) (Nat.le_of_eq (Nat.zero_add _)), Nat.zero_add]
  rw [start, slice_inside _ (Nat.le_refl _) (Nat.le_refl _), slice_behind (Nat.le_refl _), List.append_nil]

theorem Tiled.slices {pos text sections} (tiled : Tiled pos text sections) {front}
    (length : byteLength front = pos) : ∀ s ∈ sections,
      Marker.Spells ⟨s.name, s.lang⟩ (slice s.markerSpan 0 (front ++ text)) ∧
      slice s.contentSpan 0 (front ++ text) = s.content.toList := by
  induction tiled generalizing front with
  | nil => simp
  | cons spelled fed marker content plain others ih =>
    rename_i pos s line feed rest sections
    subst length
    have behind : byteLength (front ++ (line ++ feed) ++ s.content.toList) = s.contentSpan.stop := by
      simp [content, Nat.add_assoc]
    have whole : front ++ (line ++ feed ++ (s.content.toList ++ rest)) =
        front ++ (line ++ feed) ++ s.content.toList ++ rest := by simp
    refine List.forall_mem_cons.2 ⟨⟨?_, ?_⟩, ?_⟩
    · rw [marker, List.append_assoc line, slice_middle]
      exact spelled
    · rw [content, ← byteLength_append, ← List.append_assoc front (line ++ feed), slice_middle]
    · rw [whole]
      exact ih behind

def Section.isSupported (s : Section) : Bool := s.lang.all fun lang => (Section.languages? s.kind).all (·.contains lang)

def Section.suits (kind : SectionKind) (s : Section) : Bool := s.kind = kind && s.isSupported

theorem Section.langProblem?_eq_none {s : Section} : s.langProblem? = none ↔ s.isSupported = true := by
  unfold Section.langProblem? Section.isSupported
  cases s.lang with
  | none => simp
  | some lang =>
    cases Section.languages? s.kind with
    | none => simp
    | some allowed =>
      dsimp only
      split <;> simp_all

theorem Section.kind_of_not_isSupported {s : Section} (unsupported : s.isSupported = false) :
    s.kind = .template ∨ s.kind = .script := by
  unfold Section.isSupported at unsupported
  cases kind : s.kind with
  | template => exact .inl rfl
  | script => exact .inr rfl
  | style | custom => cases lang : s.lang <;> simp [kind, lang, Section.languages?] at unsupported

theorem Section.langProblem?_isError {s : Section} {problem : Diagnostic} (found : s.langProblem? = some problem) :
    problem.isError = true ∧ problem.region = .span s.markerSpan ∧ s.isSupported = false := by
  have refused : s.isSupported ≠ true := fun supported => by
    rw [Section.langProblem?_eq_none.2 supported] at found
    cases found
  unfold Section.langProblem? at found
  split at found
  · split at found <;> cases found
    exact ⟨rfl, rfl, Bool.not_eq_true _ ▸ refused⟩
  · cases found

namespace Document

structure Takes (sections : List Section) (d d' : Document) (log : Log) : Prop where
  template : d'.template = d.template.or (sections.find? (·.suits .template))
  script : d'.script = d.script.or (sections.find? (·.suits .script))
  styles : d'.styles = d.styles ++ sections.filter (·.kind = .style)
  custom : d'.custom = d.custom ++ sections.filter (·.kind = .custom)
  count : d.sectionCount + sections.length = d'.sectionCount + log.errorCount

section

variable {a b : List Section} {d d' d'' : Document} {log more : Log} {s : Section}

theorem Takes.quiet (warnings : log.errorCount = 0) : Takes [] d d log := by
  constructor <;> simp [warnings]

theorem Takes.append (first : Takes a d d' log) (second : Takes b d' d'' more) :
    Takes (a ++ b) d d'' (log ++ more) where
  template := by rw [second.template, first.template, List.find?_append, Option.or_assoc]
  script := by rw [second.script, first.script, List.find?_append, Option.or_assoc]
  styles := by rw [second.styles, first.styles, List.filter_append, List.append_assoc]
  custom := by rw [second.custom, first.custom, List.filter_append, List.append_assoc]
  count := by
    have one := first.count
    have two := second.count
    have errors : Log.errorCount (log ++ more) = log.errorCount + more.errorCount := List.countP_append
    rw [List.length_append, errors]
    omega

theorem add_ok (added : d.add s = .ok d') : s.isSupported = true ∧
    (s.kind = .template ∧ d.template = none ∧ d' = { d with template := some s } ∨
      s.kind = .script ∧ d.script = none ∧ d' = { d with script := some s } ∨
      s.kind = .style ∧ d' = { d with styles := d.styles ++ [s] } ∨
      s.kind = .custom ∧ d' = { d with custom := d.custom ++ [s] }) := by
  unfold add at added
  split at added
  · cases added
  · rename_i readable
    refine ⟨Section.langProblem?_eq_none.1 readable, ?_⟩
    split at added
    · rename_i kind
      split at added
      · cases added
      · rename_i free
        exact .inl ⟨kind, by simpa using free, (Except.ok.inj added).symm⟩
    · rename_i kind
      split at added
      · cases added
      · rename_i free
        exact .inr (.inl ⟨kind, by simpa using free, (Except.ok.inj added).symm⟩)
    · rename_i kind
      exact .inr (.inr (.inl ⟨kind, (Except.ok.inj added).symm⟩))
    · rename_i kind
      exact .inr (.inr (.inr ⟨kind, (Except.ok.inj added).symm⟩))

theorem add_error {problem} (refused : d.add s = .error problem) :
    problem.isError = true ∧ problem.region = .span s.markerSpan ∧
      (s.kind = .template ∧ (s.isSupported = false ∨ d.template.isSome = true) ∨
      s.kind = .script ∧ (s.isSupported = false ∨ d.script.isSome = true)) := by
  unfold add at refused
  split at refused
  · rename_i found
    cases refused
    obtain ⟨error, there, unsupported⟩ := Section.langProblem?_isError found
    exact ⟨error, there, (Section.kind_of_not_isSupported unsupported).imp (⟨·, .inl unsupported⟩)
      (⟨·, .inl unsupported⟩)⟩
  · split at refused
    · rename_i kind
      split at refused <;> cases refused
      rename_i taken
      exact ⟨rfl, rfl, .inl ⟨kind, .inr taken⟩⟩
    · rename_i kind
      split at refused <;> cases refused
      rename_i taken
      exact ⟨rfl, rfl, .inr ⟨kind, .inr taken⟩⟩
    all_goals cases refused

theorem add_takes (added : d.add s = .ok d') : Takes [s] d d' [] := by
  obtain ⟨supported, ⟨kind, free, rfl⟩ | ⟨kind, free, rfl⟩ | ⟨kind, rfl⟩ | ⟨kind, rfl⟩⟩ := add_ok added <;>
    constructor <;> simp [Section.suits, sectionCount, Log.errorCount, *] <;> omega

theorem refused_takes {problem} (refused : d.add s = .error problem) : Takes [s] d d [problem] := by
  obtain ⟨error, -, ⟨kind, cause⟩ | ⟨kind, cause⟩⟩ := add_error refused <;> rcases cause with cause | cause <;>
    constructor <;> simp [Section.suits, kind, cause, Log.errorCount, error, Option.or_of_isSome]

theorem addAll_takes (d : Document) (list : List Section) : Takes list d (d.addAll list).1 (d.addAll list).2 := by
  induction list generalizing d with
  | nil => exact .quiet rfl
  | cons s rest ih =>
    unfold addAll
    cases added : d.add s with
    | ok d' => exact (add_takes added).append (ih d')
    | error problem => exact (refused_takes added).append (ih d)

end

def parts (d : Document) : List Section := d.template.toList ++ d.script.toList ++ d.styles ++ d.custom

structure Filed (sections : List Section) (d : Document) : Prop where
  template : d.template = sections.find? (·.suits .template)
  script : d.script = sections.find? (·.suits .script)
  styles : d.styles = sections.filter (·.kind = .style)
  custom : d.custom = sections.filter (·.kind = .custom)

theorem Takes.filed {sections d log} (takes : Takes sections {} d log) :
    Filed sections d := ⟨takes.template, takes.script, takes.styles, takes.custom⟩

theorem Filed.mem {sections d s} (filed : Filed sections d) (mem : s ∈ d.parts) : s ∈ sections := by
  simp only [parts, List.mem_append, Option.mem_toList, filed.template, filed.script, filed.styles, filed.custom] at mem
  rcases mem with ((template | script) | style) | custom
  · exact List.mem_of_find?_eq_some template
  · exact List.mem_of_find?_eq_some script
  · exact (List.mem_filter.1 style).1
  · exact (List.mem_filter.1 custom).1

def markers (source : String) : List Marker.Found := Marker.findAll (.start source 0)

/-- The section under each marker of a file, those that are left out of its document included. -/
def allSections (source : String) : List Section :=
  sections ((Cursor.start source 0).skip source.toList.length) (markers source)

theorem allSections_markerSpan (source : String) :
    (allSections source).map Section.markerSpan = (markers source).map Marker.Found.span := by
  unfold allSections
  induction markers source with
  | nil => rfl
  | cons m found ih => rw [sections_cons, List.map_cons, List.map_cons, ih]; rfl

theorem allSections_tiled (source : String) : ∃ leading tail, source.toList = leading ++ tail ∧ Unmarked leading tail ∧
    Tiled (byteLength leading) tail (allSections source) := by
  have leads : (Cursor.start source 0).Leads ((Cursor.start source 0).skip source.toList.length) :=
    (Cursor.passes_skip _ _).leads
  obtain ⟨leading, ⟨split, pos⟩, unmarked, tiled⟩ :=
    sections_tiled (Marker.findAll_marked (.start source 0)) leads List.drop_length
  exact ⟨leading, _, split, unmarked, (pos.trans (Nat.zero_add _)) ▸ tiled⟩

theorem strayText_errorCount (leading : List Char) : (strayText leading).errorCount = 0 := by
  unfold strayText
  split <;> rfl

theorem cut_of_no_markers {source} (filename : String) (none : markers source = []) :
    (cut source filename).1 = { template := some (Section.implicit source) } ∧
      ∃ warning, (cut source filename).2 = [warning] ∧ warning.isError = false := by
  have found : Marker.findAll (.start source 0) = [] := none
  simp [cut, found, Diagnostic.isError, Diagnostic.fileWarning]

theorem cut_takes {source} (filename : String) (some : markers source ≠ []) :
    Takes (allSections source) {} (cut source filename).1 (cut source filename).2 := by
  have found : Marker.findAll (.start source 0) = markers source := rfl
  unfold cut
  dsimp only
  rw [found]
  split
  · exact absurd ‹_› some
  · exact (Takes.quiet (strayText_errorCount _)).append (addAll_takes {} (allSections source))

/-- A file is the text before its first marker and the sections behind it, and none of them is left out of the document
without an error. A file without markers is one template. -/
theorem cut_tiles (source filename : String) :
    (∃ leading tail, source.toList = leading ++ tail ∧ Unmarked leading tail ∧
      Tiled (byteLength leading) tail (allSections source)) ∧
    (allSections source).map Section.markerSpan = (markers source).map Marker.Found.span ∧
    let (d, log) := cut source filename
    if markers source = [] then
      d = { template := some (Section.implicit source) } ∧ ∃ warning, log = [warning] ∧ warning.isError = false
    else
      Filed (allSections source) d ∧ (markers source).length = d.sectionCount + log.errorCount ∧
      ∀ s ∈ d.parts, Marker.Spells ⟨s.name, s.lang⟩ (slice s.markerSpan 0 source.toList) ∧
        slice s.contentSpan 0 source.toList = s.content.toList := by
  have spans := allSections_markerSpan source
  refine ⟨allSections_tiled source, spans, ?_⟩
  dsimp only
  split
  · rename_i none
    exact cut_of_no_markers filename none
  · rename_i some
    have takes := cut_takes filename some
    refine ⟨takes.filed, ?_, fun s mem => ?_⟩
    · have count := takes.count
      have length := congrArg List.length spans
      rw [List.length_map, List.length_map] at length
      rw [← length, ← count]
      exact (Nat.zero_add _).symm
    · obtain ⟨leading, tail, split, -, tiled⟩ := allSections_tiled source
      rw [split]
      exact tiled.slices rfl s (takes.filed.mem mem)

end Document

end ComponentCompiler
