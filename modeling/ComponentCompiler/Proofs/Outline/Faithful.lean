import ComponentCompiler.Proofs.Outline.Lines

/-!
# Spans of outlines

`Faithful` says that an outline says truly where its parts stand. Main statement: `parse_faithful`.
-/

namespace ComponentCompiler.Template.Outline

open Text

/-- The outline says truly where in `source`, which starts at offset `base`, its parts stand. -/
structure Faithful (source : String) (base : Nat) (items : List Item) : Prop where
  inText : ∀ i ∈ preorder items, InText source base i.span ∧ ∀ k ∈ i.marked, InText source base k.span
  code : ∀ i ∈ preorder items, ∀ c, Mark.code c ∈ i.marked →
    c.text = String.ofList (trim (slice c.span base source.toList)) ∧ c.isBare = isIdentifier c.text
  nonempty : ∀ i ∈ preorder items, i.span.start < i.span.stop
  ordered : (preorder items).Pairwise fun i j => i.span.stop ≤ j.span.start
  inside : ∀ i ∈ preorder items, ∀ k ∈ i.marked, i.span.contains k.span = true

/-- What reading `source` as an outline gives: an outline that says truly where its parts stand, or a fault in the
text. -/
def Faithfully (source : String) (base : Nat) : Except ParseError (List Item) → Prop :=
  Yields (fun e => InText source base e.span) (Faithful source base)

section

variable {source : String} {base : Nat} {c d : Cursor} {items : List Item} {i : Item}

theorem Mark.Stands.covers {m : Mark} (stands : m.Stands c d) : ∃ text, c.Covers d m.span text := by
  cases m with
  | place s => exact stands
  | code k =>
    obtain ⟨text, covers, -⟩ := stands
    exact ⟨text, covers⟩

theorem Listed.mem (listed : Listed c items d) (mem : i ∈ items) :
    ∃ a b, c.Leads a ∧ a.Leads b ∧ b.Leads d ∧ a.pos < b.pos ∧ i.span = ⟨a.pos, b.pos⟩ ∧
      ∀ k ∈ i.marked, k.Stands a b := by
  induction listed with
  | nil => cases mem
  | cons before header long span marks rest ih =>
    rcases List.mem_cons.1 mem with rfl | later
    · exact ⟨_, _, before, header, rest.leads, long, span, marks⟩
    · obtain ⟨a, b, first, others⟩ := ih later
      exact ⟨a, b, before.trans (header.trans first), others⟩

theorem Listed.pairwise (listed : Listed c items d) : items.Pairwise fun i j => i.span.stop ≤ j.span.start := by
  induction listed with
  | nil => exact .nil
  | cons before header long span marks rest ih =>
    refine .cons (fun j mem => ?_) ih
    obtain ⟨a, b, first, -, -, -, there, -⟩ := rest.mem mem
    rw [span, there]
    exact first.pos_le

theorem Listed.faithful (listed : Listed (.start source base) (preorder items) d) : Faithful source base items where
  inText := by
    intro i mem
    obtain ⟨a, b, before, header, behind, -, span, marks⟩ := listed.mem mem
    refine ⟨(span ▸ before.reaches header : Cursor.Reaches _ i.span).inText, fun k given => ?_⟩
    obtain ⟨text, covers⟩ := (marks k given).covers
    exact Cursor.Reaches.inText ⟨b, text, covers.widen before (.refl b)⟩
  code := by
    intro i mem c given
    obtain ⟨a, b, before, -, -, -, -, marks⟩ := listed.mem mem
    obtain ⟨text, covers, same⟩ := marks _ given
    have cut : slice c.span base source.toList = text := (covers.widen before (.refl b)).slice_eq
    rw [cut, same]
    refine ⟨rfl, ?_⟩
    simp only [Code.ofList, isIdentifier, String.toList_ofList]
  nonempty := by
    intro i mem
    obtain ⟨a, b, -, -, -, long, span, -⟩ := listed.mem mem
    rwa [span]
  ordered := listed.pairwise
  inside := by
    intro i mem k given
    obtain ⟨a, b, -, -, -, -, span, marks⟩ := listed.mem mem
    obtain ⟨text, s, t, first, -, last, same⟩ := (marks k given).covers
    rw [span, same]
    simp only [Span.contains, Bool.and_eq_true, decide_eq_true_eq]
    exact ⟨first.pos_le, last.pos_le⟩

/-- All that an outline or a fault says of places in the text is true. -/
theorem parse_faithful (source : String) (base : Nat) : Faithfully source base (parse source base) := by
  have read := parse_listed source base
  unfold Faithfully
  cases ended : parse source base with
  | error e =>
    rw [ended] at read
    exact read.1.inText
  | ok items =>
    rw [ended] at read
    obtain ⟨d, listed⟩ := read
    exact listed.faithful

end

end ComponentCompiler.Template.Outline
