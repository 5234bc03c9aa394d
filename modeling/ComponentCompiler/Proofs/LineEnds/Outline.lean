import ComponentCompiler.Proofs.LineEnds.Inline
import ComponentCompiler.Proofs.Twins.Lines

/-!
# Outlines with other line ends

Main statement: `parse_crlf`.
-/

namespace ComponentCompiler.Template

open Text

namespace Layout

theorem nextLine?_crlf {inLine lead text pos pos'} (plain : '\r' ∉ text) :
    Option.Rel (fun a a' => a'.1 = a.1 ∧ a.2.Wider a'.2) (nextLine? inLine lead pos text)
      (nextLine? inLine lead pos' (crlf text)) := by
  induction text generalizing inLine lead pos pos' with
  | nil => exact .none
  | cons x rest ih =>
    have others : '\r' ∉ rest := fun mem => plain (List.mem_cons_of_mem x mem)
    by_cases feed : x = '\n'
    · subst feed
      have fed (pos : Nat) (rest : List Char) :
          nextLine? inLine lead pos ('\n' :: rest) = nextLine? false [] (pos + 1) rest := by
        cases inLine <;> rfl
      have returned (pos : Nat) (rest : List Char) :
          nextLine? inLine lead pos ('\r' :: '\n' :: rest) = nextLine? false [] (pos + 1 + 1) rest := by
        cases inLine <;> rfl
      -- A carriage return is passed over as the rest of a line, up to its line feed.
      rw [crlf_feed, fed, returned]
      exact ih others
    · have wider : Cursor.Wider ⟨x :: rest, pos⟩ ⟨crlf (x :: rest), pos'⟩ := ⟨rfl, plain⟩
      have ended := wider.atLineEnd
      have commented : ['/', '/'].isPrefixOf (crlf (x :: rest)) = ['/', '/'].isPrefixOf (x :: rest) :=
        isPrefixOf_crlf (by decide) (by decide)
      rw [crlf_cons feed] at ended commented wider ⊢
      unfold nextLine?
      rw [ended, commented]
      split
      · exact ih others
      split
      · exact ih others
      split
      · exact ih others
      · exact .some ⟨rfl, wider⟩

theorem firstLine?_both {c c'} (wider : c.Wider c') :
    Option.Rel (fun a a' => a'.1 = a.1 ∧ a.2.Wider a'.2) (firstLine? c) (firstLine? c') := by
  unfold firstLine?
  rw [wider.rest]
  exact nextLine?_crlf wider.plain

instance : Twin.wider.Laid where
  line wider := firstLine?_both (Cursor.Wider.skipLine wider)
  finish _ := by constructor <;> simp [Cursor.skip]
  dedent _ _ := trivial
  indent _ := trivial

end Layout

namespace Outline

/-- Whether a string runs on behind a line end, anywhere in the outline. -/
def areBroken (items : List Item) : Bool := (preorder items).any Item.isBroken

inductive ParsedBoth : Except ParseError (List Item) → Except ParseError (List Item) → Prop where
  | both {items items' : List Item} (whole : areBroken items = false)
      (same : spelledItems items' = spelledItems items) : ParsedBoth (.ok items) (.ok items')
  | spoilt {items : List Item} {e : ParseError} (broken : areBroken items = true) : ParsedBoth (.ok items) (.error e)
  | neither {e e' : ParseError} : ParsedBoth (.error e) (.error e')

theorem parse_both {source base base'} (plain : '\r' ∉ source.toList) :
    ParsedBoth (parse source base) (parse (String.ofList (crlf source.toList)) base') := by
  have wider : (Cursor.start source base).Wider (Cursor.start (String.ofList (crlf source.toList)) base') :=
    ⟨String.toList_ofList, plain⟩
  have more : (Cursor.start source base).rest.length ≤ _ := Twin.Lawful.longer (T := .wider) wider
  have both := Twin.parse_alike (T := .wider) (Layout.firstLine?_both wider) more
  generalize parse source base = x at both
  generalize parse (String.ofList (crlf source.toList)) base' = x' at both
  cases x with
  | ok items =>
    cases x' with
    | ok items' =>
      cases both with
      | both whole same => exact .both (whole trivial) same
      | astray loose => exact loose.elim
    | error e' =>
      cases both with
      | spoilt _ broken => exact .spoilt broken
      | astray loose => exact loose.elim
  | error e =>
    cases x' with
    | ok items' =>
      cases both with
      | unread loose => exact loose.elim
    | error e' => exact .neither

/-- A template with a carriage return before each line feed is read exactly if it is read without them and no string in
it runs on behind a line end. Its outline is then the same, wherever its parts stand, with line feeds alone in code and
strings. -/
theorem parse_crlf (source : String) (base base' : Nat) (plain : '\r' ∉ source.toList) :
    ((∃ items', parse (String.ofList (crlf source.toList)) base' = .ok items') ↔
      ∃ items, parse source base = .ok items ∧ areBroken items = false) ∧
    ∀ items items', parse source base = .ok items → parse (String.ofList (crlf source.toList)) base' = .ok items' →
      spelledItems items' = spelledItems items := by
  have both : ParsedBoth (parse source base) (parse (String.ofList (crlf source.toList)) base') := parse_both plain
  generalize parse source base = read at both
  generalize parse (String.ofList (crlf source.toList)) base' = read' at both
  cases both with
  | @both items items' whole same =>
    refine ⟨⟨fun _ => ⟨items, rfl, whole⟩, fun _ => ⟨items', rfl⟩⟩, ?_⟩
    rintro _ _ ⟨⟩ ⟨⟩
    exact same
  | spoilt broken =>
    refine ⟨⟨?_, ?_⟩, ?_⟩
    · rintro ⟨_, ⟨⟩⟩
    · rintro ⟨_, ⟨⟩, whole⟩
      rw [broken] at whole
      cases whole
    · rintro _ _ _ ⟨⟩
  | neither =>
    refine ⟨⟨?_, ?_⟩, ?_⟩
    · rintro ⟨_, ⟨⟩⟩
    · rintro ⟨_, ⟨⟩, _⟩
    · rintro _ _ ⟨⟩

/-- Comments, escapes in template literals, blank lines and a list over two lines, all with other line ends. -/
theorem parse_crlf_page :
    let source := "@if(a && // b\n  `c\\\nd`)\n  \n  p(x=\x7b[1,\n 2]\x7d, y=\"\\\"\")\n    | \x7b\x7bf\x7d\x7d g \n"
    '\r' ∉ source.toList ∧ ∃ items items', parse source 0 = .ok items ∧
      parse (String.ofList (crlf source.toList)) 7 = .ok items' ∧ spelledItems items' = spelledItems items := by
  intro source
  have computed : ('\r' ∉ source.toList) ∧
      ((parse source 0).toOption.any fun items => !areBroken items) = true := by decide +kernel
  obtain ⟨plain, read⟩ := computed
  cases given : parse source 0 with
  | error e =>
    rw [given] at read
    cases read
  | ok items =>
    rw [given] at read
    have unbroken : (!areBroken items) = true := read
    have whole : areBroken items = false := by simpa using unbroken
    obtain ⟨accepted, same⟩ := parse_crlf source 0 7 plain
    obtain ⟨items', given'⟩ := accepted.2 ⟨items, given, whole⟩
    exact ⟨plain, items, items', rfl, given', same items items' given given'⟩

/-- The backslash before a line end lets a string go on with a line feed, but not with a carriage return and a line
feed. -/
theorem string_over_two_lines :
    let source := "p(a=\x7b'x\\\ny'\x7d)\n"
    '\r' ∉ source.toList ∧ (parse source 0).toOption.isSome = true ∧
      (parse (String.ofList (crlf source.toList)) 0).toOption.isNone = true := by
  decide +kernel

end Outline

end ComponentCompiler.Template
