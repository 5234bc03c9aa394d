import ComponentCompiler.Proofs.Section.Lines

/-!
# Assembled files

A file can be assembled from its sections, and cutting undoes assembling: `cut_assemble`.
-/

namespace ComponentCompiler

open Text

structure Entry where
  name : String
  lang : Option String
  body : String
  deriving DecidableEq

namespace Entry

def kind (e : Entry) : SectionKind := .ofName e.name

def langText : Option String → List Char
  | none => []
  | some lang => " lang=\"".toList ++ (lang.toList ++ ['"'])

def header (e : Entry) : List Char := "#! ".toList ++ (e.name.toList ++ langText e.lang)

def text (e : Entry) : List Char := e.header ++ '\n' :: e.body.toList

/-- Whether no line starts with `#!`. The text itself starts a line if `starts`. -/
def isPlain (starts : Bool) : List Char → Bool
  | [] => true
  | c :: rest => !(starts && "#!".toList.isPrefixOf (c :: rest)) && isPlain (c = '\n') rest

/-- What can be written so that it is found again. Bodies are made of whole lines. -/
structure WellFormed (e : Entry) : Prop where
  name : Template.Outline.IsName e.name
  lang : ∀ lang ∈ e.lang, '"' ∉ lang.toList
  whole : WholeLines e.body.toList
  plain : isPlain true e.body.toList = true
  template : e.kind = .template → e.lang ∈ [none, some "wolf"]
  script : e.kind = .script → e.lang ∈ [none, some "ts", some "typescript"]

instance (e : Entry) : Decidable e.WellFormed :=
  decidable_of_iff
    ((e.name.toList.head?.any isNameStart = true ∧ e.name.toList.all isNamePart = true) ∧
      (∀ lang ∈ e.lang, '"' ∉ lang.toList) ∧ WholeLines e.body.toList ∧ isPlain true e.body.toList = true ∧
      (e.kind = .template → e.lang ∈ [none, some "wolf"]) ∧
      (e.kind = .script → e.lang ∈ [none, some "ts", some "typescript"]))
    ⟨fun h => ⟨⟨h.1.1, List.all_eq_true.1 h.1.2⟩, h.2.1, h.2.2.1, h.2.2.2.1, h.2.2.2.2.1, h.2.2.2.2.2⟩,
      fun h => ⟨⟨h.name.start, List.all_eq_true.2 h.name.parts⟩, h.lang, h.whole, h.plain, h.template,
        h.script⟩⟩

end Entry

def assemble (entries : List Entry) : String := String.ofList (entries.flatMap Entry.text)

def Section.entry (s : Section) : Entry := ⟨s.name, s.lang, s.content⟩

theorem Entry.isPlain_line {front rest} (whole : '\n' ∉ front) {starts}
    (plain : isPlain starts (front ++ '\n' :: rest) = true) : isPlain true rest = true := by
  induction front generalizing starts with
  | nil => simpa [isPlain] using And.right (by simpa [isPlain] using plain)
  | cons x front ih =>
    have later : isPlain (x = '\n') (front ++ '\n' :: rest) = true := by
      simp only [List.cons_append, isPlain, Bool.and_eq_true] at plain
      exact plain.2
    exact ih (fun mem => whole (List.mem_cons_of_mem _ mem)) later

theorem Entry.starts_other {text} (plain : isPlain true text = true) (some : text ≠ []) (rest : List Char)
    (whole : WholeLines text) : "#!".toList.isPrefixOf (text ++ rest) = false := by
  obtain ⟨front, later, rfl, -, -⟩ := whole.split some
  cases front with
  | nil => simp [List.isPrefixOf]
  | cons x front =>
    cases front with
    | nil => simp [List.isPrefixOf]
    | cons y front =>
      simp only [List.cons_append, isPlain, Bool.true_and, Bool.and_eq_true, Bool.not_eq_true'] at plain
      simpa [List.isPrefixOf] using plain.1

namespace Marker

theorem read?_of_other {c} (other : "#!".toList.isPrefixOf c.rest = false) : read? c = none := by
  have absent : c.skipLiteral? "#!".toList = none := by
    rw [Cursor.skipLiteral?, if_neg (by rw [other]; exact Bool.false_ne_true)]
  rw [read?, absent]

theorem findAll_body {c body rest} (written : c.rest = body ++ rest) (whole : WholeLines body)
    (plain : Entry.isPlain true body = true) : ∃ d, d.rest = rest ∧ findAll c = findAll d := by
  induction length : body.length using Nat.strongRecOn generalizing c body with
  | ind n ih =>
    by_cases none : body = []
    · subst none
      exact ⟨c, written, rfl⟩
    have other := Entry.starts_other plain none rest whole
    rw [← written] at other
    obtain ⟨front, later, rfl, unbroken, behind⟩ := whole.split none
    have passes : c.Passes front ⟨'\n' :: (later ++ rest), c.pos + byteLength front⟩ := ⟨by simpa using written, rfl⟩
    have next : c.skipLine.rest = later ++ rest := by
      rw [Cursor.skipLine_eq_next passes unbroken fun _ feed => (Option.some.inj feed).symm]
      rfl
    obtain ⟨d, reached, same⟩ := ih later.length (by rw [← length]; simp; omega) next behind
      (Entry.isPlain_line unbroken plain) rfl
    refine ⟨d, reached, ?_⟩
    rw [findAll_unread (by rw [written]; simp) (read?_of_other other), same]

theorem spells_header {e : Entry} (wf : e.WellFormed) : Spells ⟨e.name, e.lang⟩ e.header := by
  have blank : ∀ c ∈ [' '], isInlineBlank c = true := fun c mem => List.mem_singleton.1 mem ▸ rfl
  refine ⟨[' '], Entry.langText e.lang, [], blank, wf.name, ?_,
    ⟨[], [], by simp, .inl rfl, rfl⟩, by simp [Entry.header]⟩
  cases given : e.lang with
  | none => rfl
  | some lang => exact ⟨[' '], by simp, blank, wf.lang lang given, rfl⟩

theorem findAll_text {c} {e : Entry} {rest} (wf : e.WellFormed) (written : c.rest = e.text ++ rest) :
    ∃ m d, findAll c = m :: findAll d ∧ d.rest = rest ∧ m.start = c ∧ m.marker = ⟨e.name, e.lang⟩ ∧
      m.body.rest = e.body.toList ++ rest := by
  have passes : c.Passes e.header ⟨'\n' :: (e.body.toList ++ rest), c.pos + byteLength e.header⟩ :=
    ⟨by simpa [Entry.text] using written, rfl⟩
  have read := read?_eq_some.2 ⟨_, passes, spells_header wf, fun _ feed => (Option.some.inj feed).symm⟩
  obtain ⟨d, reached, same⟩ :=
    findAll_body (c := Cursor.next ⟨'\n' :: (e.body.toList ++ rest), _⟩) rfl wf.whole wf.plain
  exact ⟨_, d, by rw [findAll_read read, same], reached, rfl, rfl, rfl⟩

end Marker

namespace Document

theorem sections_assembled {entries} (wf : ∀ e ∈ entries, e.WellFormed) {c}
    (written : c.rest = entries.flatMap Entry.text) (stop : Cursor) (past : stop.rest = []) :
    (firstStart stop (Marker.findAll c)).rest = c.rest ∧
      (sections stop (Marker.findAll c)).map Section.entry = entries := by
  induction entries generalizing c with
  | nil =>
    rw [Marker.findAll_nil written]
    exact ⟨past.trans written.symm, rfl⟩
  | cons e entries ih =>
    obtain ⟨first, others⟩ := List.forall_mem_cons.1 wf
    obtain ⟨m, d, found, reached, start, marker, body⟩ := Marker.findAll_text first written
    obtain ⟨next, rest⟩ := ih others reached
    rw [found, sections_cons, List.map_cons, rest]
    refine ⟨congrArg Cursor.rest start, congrArg (· :: entries) ?_⟩
    have content : m.body.upTo (firstStart stop (Marker.findAll d)) = e.body.toList := by
      simp [Cursor.upTo, body, next, reached]
    simp only [Section.entry, Section.ofMarker, content, marker, String.ofList_toList]

section

variable {d d' : Document} {s : Section} {list : List Section}

/-- There is room for the sections: they are in languages that can be read, and only one is a template and one a
script. -/
structure Room (d : Document) (list : List Section) : Prop where
  supported : ∀ s ∈ list, s.isSupported = true
  template : d.template.toList.length + (list.filter (·.kind = .template)).length ≤ 1
  script : d.script.toList.length + (list.filter (·.kind = .script)).length ≤ 1

theorem length_filter_kind (kind : SectionKind) : ((s :: list).filter (·.kind = kind)).length =
    (if s.kind = kind then 1 else 0) + (list.filter (·.kind = kind)).length := by
  rw [List.filter_cons]
  by_cases same : s.kind = kind <;> simp [same, Nat.add_comm]

theorem Room.add (room : Room d (s :: list)) : ∃ d', d.add s = .ok d' ∧ Room d' list := by
  obtain ⟨supported, template, script⟩ := room
  obtain ⟨first, others⟩ := List.forall_mem_cons.1 supported
  rw [length_filter_kind] at template script
  cases added : d.add s with
  | ok d' =>
    refine ⟨d', rfl, others, ?_, ?_⟩ <;>
      obtain ⟨-, ⟨kind, free, rfl⟩ | ⟨kind, free, rfl⟩ | ⟨kind, rfl⟩ | ⟨kind, rfl⟩⟩ := add_ok added <;>
      simp only [kind, if_true, reduceCtorEq, if_false, Option.toList_some,
        List.length_singleton] at template script ⊢ <;>
      omega
  | error problem =>
    -- A section is refused for its language, or as the second one of its kind.
    exfalso
    obtain ⟨-, -, ⟨kind, unsupported | taken⟩ | ⟨kind, unsupported | taken⟩⟩ := add_error added
    · exact Bool.false_ne_true (unsupported.symm.trans first)
    · obtain ⟨t, held⟩ := Option.isSome_iff_exists.1 taken
      simp only [kind, held, if_true, Option.toList_some, List.length_singleton] at template
      omega
    · exact Bool.false_ne_true (unsupported.symm.trans first)
    · obtain ⟨t, held⟩ := Option.isSome_iff_exists.1 taken
      simp only [kind, held, if_true, Option.toList_some, List.length_singleton] at script
      omega

theorem addAll_quiet (room : Room d list) : (d.addAll list).2 = [] := by
  induction list generalizing d with
  | nil => rfl
  | cons s list ih =>
    obtain ⟨d', added, later⟩ := room.add
    rw [addAll, added]
    exact ih later

end

def ofKind (d : Document) : SectionKind → List Section
  | .template => d.template.toList
  | .script => d.script.toList
  | .style => d.styles
  | .custom => d.custom

theorem toList_find?_of_length_le {list : List Section} {p : Section → Bool} (one : (list.filter p).length ≤ 1) :
    (list.find? p).toList = list.filter p := by
  rw [← List.head?_filter]
  cases kept : list.filter p with
  | nil => rfl
  | cons s more =>
    rw [kept, List.length_cons] at one
    have none : more = [] := List.length_eq_zero_iff.1 (by omega)
    rw [none]
    rfl

theorem Filed.ofKind {d list} (filed : Filed list d) (room : Room {} list) (kind : SectionKind) :
    d.ofKind kind = list.filter (·.kind = kind) := by
  have same (kind : SectionKind) : list.filter (·.suits kind) = list.filter (·.kind = kind) :=
    List.filter_congr fun s mem => by rw [Section.suits, room.supported s mem, Bool.and_true]
  cases kind with
  | template =>
    have one : (list.filter (·.suits .template)).length ≤ 1 := by simpa [same] using room.template
    rw [Document.ofKind, filed.template, toList_find?_of_length_le one, same]
  | script =>
    have one : (list.filter (·.suits .script)).length ≤ 1 := by simpa [same] using room.script
    rw [Document.ofKind, filed.script, toList_find?_of_length_le one, same]
  | style => exact filed.styles
  | custom => exact filed.custom

theorem isSupported_of_wellFormed {s : Section} (wf : s.entry.WellFormed) : s.isSupported = true := by
  apply Decidable.byContradiction
  intro unsupported
  have refused := Bool.not_eq_true _ ▸ unsupported
  rcases Section.kind_of_not_isSupported refused with kind | kind
  · have lang : s.lang ∈ [none, some "wolf"] := wf.template kind
    rcases List.mem_cons.1 lang with given | given <;>
      simp_all [Section.isSupported, Section.languages?]
  · have lang : s.lang ∈ [none, some "ts", some "typescript"] := wf.script kind
    simp only [List.mem_cons, List.not_mem_nil, or_false] at lang
    rcases lang with given | given | given <;> simp_all [Section.isSupported, Section.languages?]

theorem cut_log {source} (filename : String) (some : markers source ≠ []) :
    (cut source filename).2 =
      strayText ((Cursor.start source 0).upTo
          (firstStart ((Cursor.start source 0).skip source.toList.length) (markers source))) ++
        (addAll {} (allSections source)).2 := by
  have found : Marker.findAll (.start source 0) = markers source := rfl
  unfold cut allSections
  dsimp only
  rw [found]
  cases given : markers source with
  | nil => exact absurd given some
  | cons m more => rfl

/-- Cutting an assembled file gives back the sections it was assembled from, each under its kind and in order, and has
nothing to report. -/
theorem cut_assemble (entries : List Entry) (filename : String) (some : entries ≠ []) (wf : ∀ e ∈ entries, e.WellFormed)
    (templates : (entries.filter (·.kind = .template)).length ≤ 1)
    (scripts : (entries.filter (·.kind = .script)).length ≤ 1) :
    (cut (assemble entries) filename).2 = [] ∧
      ∀ kind, ((cut (assemble entries) filename).1.ofKind kind).map Section.entry = entries.filter (·.kind = kind) := by
  have written : (Cursor.start (assemble entries) 0).rest = entries.flatMap Entry.text := String.toList_ofList
  -- All that is found is what was assembled; the rest is about how it is filed.
  obtain ⟨start, same⟩ := sections_assembled wf written
    ((Cursor.start (assemble entries) 0).skip (assemble entries).toList.length) List.drop_length
  change (firstStart _ (markers (assemble entries))).rest = _ at start
  change (allSections (assemble entries)).map Section.entry = entries at same
  have marked : markers (assemble entries) ≠ [] := by
    intro none
    rw [allSections, none] at same
    exact some same.symm
  have kept (kind : SectionKind) :
      ((allSections (assemble entries)).filter (·.kind = kind)).map Section.entry = entries.filter (·.kind = kind) := by
    calc
      _ = ((allSections (assemble entries)).map Section.entry).filter (·.kind = kind) := List.filter_map.symm
      _ = _ := by rw [same]
  have room : Room {} (allSections (assemble entries)) := by
    refine ⟨fun s mem => isSupported_of_wellFormed (wf s.entry ?_), ?_, ?_⟩
    · rw [← same]
      exact List.mem_map_of_mem mem
    · simpa [← kept] using templates
    · simpa [← kept] using scripts
  constructor
  · rw [cut_log filename marked, addAll_quiet room, Cursor.upTo, start, Nat.sub_self]
    rfl
  · intro kind
    rw [(cut_takes filename marked).filed.ofKind room, kept]

/-- Bodies and languages with text that looks like a marker but does not start a line. -/
theorem cut_assemble_almost_markers :
    let entries : List Entry :=
      [⟨"script", some "ts", "let a = '#! style'\n"⟩, ⟨"notes", some "\n#! style", " #! template\r\n#\n!\n"⟩,
        ⟨"template", none, ""⟩]
    (∀ e ∈ entries, e.WellFormed) ∧ (cut (assemble entries) "Page.iron").2 = [] ∧
      ∀ kind, ((cut (assemble entries) "Page.iron").1.ofKind kind).map Section.entry =
        entries.filter (·.kind = kind) := by
  intro entries
  have all : entries.all (fun e => decide e.WellFormed) = true := rfl
  have wf : ∀ e ∈ entries, e.WellFormed := fun e mem => of_decide_eq_true (List.all_eq_true.1 all e mem)
  exact ⟨wf, cut_assemble entries "Page.iron" (List.cons_ne_nil _ _) wf (by decide) (by decide)⟩

end Document

end ComponentCompiler
