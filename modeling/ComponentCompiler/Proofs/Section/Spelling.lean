import ComponentCompiler.Proofs.Outline.WellFormed
import ComponentCompiler.Proofs.Text.Passage
import ComponentCompiler.Section.Marker

/-!
# How markers are written

`Marker.Spells` says which texts are the line of a marker; there is only one way to read them.
-/

namespace ComponentCompiler

open Text

namespace Text.Cursor

section

variable {c d e : Cursor} {text more : List Char} {p : Char → Bool}

theorem Passes.split (passes : c.Passes (text ++ more) e) : ∃ d, c.Passes text d ∧ d.Passes more e := by
  obtain ⟨rest, pos⟩ := passes
  refine ⟨⟨more ++ e.rest, c.pos + byteLength text⟩, ⟨by simp [rest], rfl⟩, rfl, ?_⟩
  rw [pos, byteLength_append, Nat.add_assoc]

theorem Passes.unique (one : c.Passes text d) (other : c.Passes text e) : d = e := by
  obtain ⟨rest, pos⟩ := d
  obtain ⟨rest', pos'⟩ := e
  obtain rfl : rest = rest' := List.append_cancel_left (one.rest.symm.trans other.rest)
  obtain rfl : pos = pos' := one.pos.trans other.pos.symm
  rfl

theorem skipLiteral?_eq_some : c.skipLiteral? text = some d ↔ c.Passes text d := by
  unfold skipLiteral?
  constructor
  · intro found
    split at found
    · rename_i starts
      cases found
      obtain ⟨rest, split⟩ := List.isPrefixOf_iff_prefix.1 starts
      refine ⟨?_, ?_⟩ <;> simp [skip, ← split]
    · cases found
  · intro passes
    have starts : text.isPrefixOf c.rest = true := List.isPrefixOf_iff_prefix.2 ⟨d.rest, passes.rest.symm⟩
    have taken := passes_skip c text.length
    rw [passes.rest, List.take_left] at taken
    rw [if_pos starts, taken.unique passes]

theorem Passes.dropWhile_eq (passes : c.Passes text d) (run : ∀ x ∈ text, p x = true)
    (stops : ∀ x ∈ d.rest.head?, p x = false) : c.dropWhile p = d ∧ c.takeWhile p = text := by
  have past : d.rest.takeWhile p = [] := by
    cases behind : d.rest with
    | nil => rfl
    | cons x rest => simp [stops x (by simp [behind])]
  have taken : c.takeWhile p = text := by
    rw [takeWhile, passes.rest, List.takeWhile_append_of_pos run, past, List.append_nil]
  have reached : c.Passes text (c.dropWhile p) := taken ▸ c.passes_dropWhile p
  exact ⟨reached.unique passes, taken⟩

theorem dropWhile_stops (c : Cursor) (p : Char → Bool) : ∀ x ∈ (c.dropWhile p).rest.head?, p x = false := by
  intro x mem
  have stopped := List.head?_dropWhile_not p c.rest
  have first : (c.rest.dropWhile p).head? = some x := mem
  simpa [first] using stopped

theorem next_of_cons {x rest} (here : c.rest = x :: rest) : c.Passes [x] c.next := by
  obtain ⟨_, pos⟩ := c
  cases here
  exact passes_cons x rest pos

end

end Text.Cursor

def EndsLine (rest : List Char) : Prop := ∀ c ∈ rest.head?, c = '\n'

namespace Marker

/-- How the end of a marker line is written: blanks, perhaps with a carriage return behind them. -/
def SpellsEnd (text : List Char) : Prop :=
  ∃ blanks back, (∀ c ∈ blanks, isInlineBlank c = true) ∧ (back = [] ∨ back = ['\r']) ∧ text = blanks ++ back

/-- How a language is written on a marker line: behind at least one blank, in quotes. -/
def SpellsLang (lang : String) (text : List Char) : Prop :=
  ∃ blanks, blanks ≠ [] ∧ (∀ c ∈ blanks, isInlineBlank c = true) ∧ '"' ∉ lang.toList ∧
    text = blanks ++ ("lang=\"".toList ++ (lang.toList ++ ['"']))

def Spells (m : Marker) (text : List Char) : Prop :=
  ∃ blanks lang ending, (∀ c ∈ blanks, isInlineBlank c = true) ∧ Template.Outline.IsName m.name ∧
    (match m.lang with
      | none => lang = []
      | some value => SpellsLang value lang) ∧
    SpellsEnd ending ∧ text = "#!".toList ++ (blanks ++ (m.name.toList ++ (lang ++ ending)))

section

variable {c d : Cursor} {lang : String} {m : Marker} {text : List Char}

theorem readLineEnd?_of_ends {e} (blanks : c.dropWhile isInlineBlank = e)
    (returned : (e.skipLiteral? ['\r']).getD e = d) (ends : EndsLine d.rest) : readLineEnd? c = some d := by
  unfold readLineEnd?
  dsimp only
  rw [blanks, returned]
  split
  · rfl
  · rfl
  · rename_i more other
    cases behind : d.rest with
    | nil => exact absurd behind more
    | cons x rest => exact absurd (behind.trans (by rw [ends x (by simp [behind])])) (other rest)

theorem readLineEnd?_eq_some :
    readLineEnd? c = some d ↔ ∃ text, c.Passes text d ∧ SpellsEnd text ∧ EndsLine d.rest := by
  constructor
  · intro found
    have blanks := c.passes_dropWhile isInlineBlank
    have blank : ∀ x ∈ c.rest.takeWhile isInlineBlank, isInlineBlank x = true := List.all_eq_true.1 List.all_takeWhile
    have ended :
        EndsLine d.rest ∧ d = ((c.dropWhile isInlineBlank).skipLiteral? ['\r']).getD (c.dropWhile isInlineBlank) := by
      unfold readLineEnd? at found
      dsimp only at found
      split at found
      · rename_i past
        cases found
        exact ⟨by simp [EndsLine, past], rfl⟩
      · rename_i feed
        cases found
        exact ⟨by simp [EndsLine, feed], rfl⟩
      · cases found
    obtain ⟨ends, reached⟩ := ended
    cases returned : (c.dropWhile isInlineBlank).skipLiteral? ['\r'] with
    | none =>
      rw [returned, Option.getD_none] at reached
      exact ⟨_, reached ▸ blanks, ⟨_, [], blank, .inl rfl, (List.append_nil _).symm⟩, ends⟩
    | some after =>
      rw [returned, Option.getD_some] at reached
      subst reached
      exact ⟨_, blanks.append (Cursor.skipLiteral?_eq_some.1 returned), ⟨_, _, blank, .inr rfl, rfl⟩, ends⟩
  · rintro ⟨_, passes, ⟨blanks, back, blank, rfl | rfl, rfl⟩, ends⟩
    · rw [List.append_nil] at passes
      have stops : ∀ x ∈ d.rest.head?, isInlineBlank x = false := fun x mem => ends x mem ▸ rfl
      have absent : d.skipLiteral? ['\r'] = none := by
        rw [Option.eq_none_iff_forall_ne_some]
        intro e present
        have first := ends '\r' (by simp [(Cursor.skipLiteral?_eq_some.1 present).rest])
        simp at first
      exact readLineEnd?_of_ends (passes.dropWhile_eq blank stops).1 (by rw [absent, Option.getD_none]) ends
    · obtain ⟨e, run, returned⟩ := passes.split
      have stops : ∀ x ∈ e.rest.head?, isInlineBlank x = false := by simp [returned.rest]; rfl
      refine readLineEnd?_of_ends (run.dropWhile_eq blank stops).1 ?_ ends
      rw [Cursor.skipLiteral?_eq_some.2 returned, Option.getD_some]

theorem readLang?_eq_some :
    readLang? c = some (lang, d) ↔ ∃ text, c.Passes text d ∧ SpellsLang lang text := by
  constructor
  · intro found
    unfold readLang? at found
    split at found
    · cases found
    rename_i some
    split at found
    · cases found
    · rename_i value opened
      dsimp only at found
      split at found
      · cases found
      · rename_i closed
        cases found
        have blanks := c.passes_dropWhile isInlineBlank
        have blank : ∀ x ∈ c.takeWhile isInlineBlank, isInlineBlank x = true := List.all_eq_true.1 List.all_takeWhile
        have inner := value.passes_dropWhile (· ≠ '"')
        have within : ∀ x ∈ value.takeWhile (· ≠ '"'), decide (x ≠ '"') = true := List.all_eq_true.1 List.all_takeWhile
        -- The run stops at a quote, since something is left.
        have quote : (value.dropWhile (· ≠ '"')).Passes ['"'] (value.dropWhile (· ≠ '"')).next := by
          have stops := value.dropWhile_stops (· ≠ '"')
          generalize value.dropWhile (· ≠ '"') = stop at closed stops
          cases behind : stop.rest with
          | nil => simp [behind] at closed
          | cons x rest =>
            obtain rfl : x = '"' := by simpa [behind] using stops
            exact Cursor.next_of_cons behind
        refine ⟨_, blanks.append ((Cursor.skipLiteral?_eq_some.1 opened).append (inner.append quote)),
          c.takeWhile isInlineBlank, by simpa using some, blank, ?_, ?_⟩
        · intro mem
          rw [String.toList_ofList] at mem
          simpa using within '"' mem
        · simp only [String.toList_ofList, Cursor.takeWhile]
  · rintro ⟨text, passes, blanks, some, blank, free, rfl⟩
    obtain ⟨e, run, passes⟩ := passes.split
    obtain ⟨value, opened, passes⟩ := passes.split
    obtain ⟨stop, inner, quote⟩ := passes.split
    have stops : ∀ x ∈ e.rest.head?, isInlineBlank x = false := by simp [opened.rest]; rfl
    have within : ∀ x ∈ lang.toList, decide (x ≠ '"') = true := fun x mem =>
      decide_eq_true fun same => free (same ▸ mem)
    have closes : ∀ x ∈ stop.rest.head?, decide (x ≠ '"') = false := by simp [quote.rest]
    obtain ⟨reached, taken⟩ := run.dropWhile_eq blank stops
    obtain ⟨reached', taken'⟩ := inner.dropWhile_eq within closes
    have left : stop.rest.isEmpty = false := by simp [quote.rest]
    have behind : stop.next = d := (Cursor.next_of_cons quote.rest).unique quote
    unfold readLang?
    rw [taken, reached, Cursor.skipLiteral?_eq_some.2 opened]
    dsimp only
    rw [reached', taken', left, behind]
    simp [some]

theorem readLang?_of_end (passes : c.Passes text d) (ending : SpellsEnd text) (ends : EndsLine d.rest) :
    readLang? c = none := by
  rw [Option.eq_none_iff_forall_ne_some]
  rintro ⟨lang, e⟩ found
  obtain ⟨spelled, passes', blanks, -, blank, -, rfl⟩ := readLang?_eq_some.1 found
  obtain ⟨f, run, passes'⟩ := passes'.split
  have stops : ∀ x ∈ f.rest.head?, isInlineBlank x = false := by simp [passes'.rest]; rfl
  -- Behind the blanks an `l` follows in one reading and the end of the line in the other.
  have letter : (c.dropWhile isInlineBlank).rest.head? = some 'l' := by
    rw [(run.dropWhile_eq blank stops).1]
    simp [passes'.rest]
  obtain ⟨blanks', back, blank', rfl | rfl, rfl⟩ := ending
  · rw [List.append_nil] at passes
    have stops' : ∀ x ∈ d.rest.head?, isInlineBlank x = false := fun x mem => ends x mem ▸ rfl
    rw [(passes.dropWhile_eq blank' stops').1] at letter
    simpa using ends 'l' letter
  · obtain ⟨g, run', returned⟩ := passes.split
    have stops' : ∀ x ∈ g.rest.head?, isInlineBlank x = false := by simp [returned.rest]; rfl
    rw [(run'.dropWhile_eq blank' stops').1, returned.rest] at letter
    simp at letter

theorem isNamePart_of_inlineBlank {x} (blank : isInlineBlank x = true) : isNamePart x = false := by
  simp only [isInlineBlank, Bool.or_eq_true, decide_eq_true_eq] at blank
  rcases blank with rfl | rfl <;> rfl

theorem SpellsEnd.ends_name (ending : SpellsEnd text) (ends : EndsLine d.rest) :
    ∀ x ∈ (text ++ d.rest).head?, isNamePart x = false := by
  intro x first
  obtain ⟨_ | ⟨y, blanks⟩, back, blank, returned, rfl⟩ := ending
  · rcases returned with rfl | rfl
    · exact ends x first ▸ rfl
    · cases first
      rfl
  · cases first
    exact isNamePart_of_inlineBlank (blank x List.mem_cons_self)

theorem SpellsLang.ends_name (spelled : SpellsLang lang text) (rest : List Char) :
    ∀ x ∈ (text ++ rest).head?, isNamePart x = false := by
  intro x first
  obtain ⟨_ | ⟨y, blanks⟩, some, blank, -, rfl⟩ := spelled
  · exact absurd rfl some
  · cases first
    exact isNamePart_of_inlineBlank (blank x List.mem_cons_self)

theorem read?_eq_some :
    read? c = some (m, d) ↔ ∃ text, c.Passes text d ∧ m.Spells text ∧ EndsLine d.rest := by
  constructor
  · intro found
    unfold read? at found
    split at found
    · cases found
    · rename_i head opened
      have first := Cursor.skipLiteral?_eq_some.1 opened
      have blanks := head.passes_dropWhile isInlineBlank
      have blank : ∀ x ∈ head.rest.takeWhile isInlineBlank, isInlineBlank x = true :=
        List.all_eq_true.1 List.all_takeWhile
      dsimp only at found
      generalize head.dropWhile isInlineBlank = start at found blanks
      split at found
      · rename_i named
        have word := start.passes_dropWhile isNamePart
        have name : Template.Outline.IsName (String.ofList (start.takeWhile isNamePart)) :=
          Template.Outline.named_takeWhile named Template.Outline.isNamePart_of_start
        split at found
        · rename_i lang behind read
          obtain ⟨stop, ended, same⟩ := Option.map_eq_some_iff.1 found
          cases same
          obtain ⟨value, passes, spelled⟩ := readLang?_eq_some.1 read
          obtain ⟨ending, passes', spelled', ends⟩ := readLineEnd?_eq_some.1 ended
          refine ⟨_, first.append (blanks.append (word.append (passes.append passes'))), ?_, ends⟩
          refine ⟨_, value, ending, blank, name, spelled, spelled', ?_⟩
          simp only [String.toList_ofList, Cursor.takeWhile]
        · obtain ⟨stop, ended, same⟩ := Option.map_eq_some_iff.1 found
          cases same
          obtain ⟨ending, passes', spelled', ends⟩ := readLineEnd?_eq_some.1 ended
          refine ⟨_, first.append (blanks.append (word.append passes')), ?_, ends⟩
          refine ⟨_, [], ending, blank, name, rfl, spelled', ?_⟩
          simp only [String.toList_ofList, Cursor.takeWhile, List.nil_append]
      · cases found
  · rintro ⟨text, passes, ⟨blanks, lang, ending, blank, word, value, ended, rfl⟩, ends⟩
    obtain ⟨head, opened, passes⟩ := passes.split
    obtain ⟨start, run, passes⟩ := passes.split
    obtain ⟨behind, spelled, passes⟩ := passes.split
    obtain ⟨stop, valued, closing⟩ := passes.split
    have last := readLineEnd?_eq_some.2 ⟨ending, closing, ended, ends⟩
    -- The name starts where the blanks stop, and ends where a language or the end of the line begins.
    have named : start.peek?.any isNameStart = true := by
      have begins := word.start
      cases written : m.name.toList with
      | nil => simp [written] at begins
      | cons x rest => simpa [Cursor.peek?, spelled.rest, written] using begins
    have stops : ∀ x ∈ start.rest.head?, isInlineBlank x = false := by
      intro x first
      have part : isNamePart x = true :=
        Template.Outline.isNamePart_of_start x (by simpa [Cursor.peek?, Option.mem_def.1 first] using named)
      cases blank : isInlineBlank x with
      | false => rfl
      | true => rw [isNamePart_of_inlineBlank blank] at part; cases part
    have past : ∀ x ∈ behind.rest.head?, isNamePart x = false := by
      rw [valued.rest, closing.rest]
      split at value
      · subst value
        exact ended.ends_name ends
      · exact value.ends_name _
    obtain ⟨reached, -⟩ := run.dropWhile_eq blank stops
    obtain ⟨reached', taken⟩ := spelled.dropWhile_eq word.parts past
    obtain ⟨name, given⟩ := m
    unfold read?
    rw [Cursor.skipLiteral?_eq_some.2 opened]
    dsimp only at value taken ⊢
    rw [reached, if_pos named, reached', taken, String.ofList_toList]
    cases given with
    | none =>
      subst value
      obtain rfl : behind = stop := (Cursor.Passes.nil behind).unique valued
      rw [readLang?_of_end closing ended ends, last]
      rfl
    | some given =>
      rw [readLang?_eq_some.2 ⟨lang, valued, value⟩]
      dsimp only
      rw [last]
      rfl

end

end Marker

end ComponentCompiler
