import ComponentCompiler.Proofs.Respan.Commutes
import ComponentCompiler.Proofs.Section.Tiling

/-!
# Sections in their file

Main statements: `cut_stands` and `cut_reports`.
-/

namespace ComponentCompiler

open Text

/-- The marker and the content of a section lie in the text from `o` on, and the content has the length of its span. -/
structure Section.Stands (o : Cursor) (s : Section) : Prop where
  marker : o.Reaches s.markerSpan
  content : o.Reaches s.contentSpan
  length : s.contentSpan.stop = s.base + byteLength s.content.toList

theorem Tiled.stands {o pos text sections} (tiled : Tiled pos text sections) (before : o.Leads ⟨text, pos⟩) :
    ∀ s ∈ sections, s.Stands o := by
  induction tiled with
  | nil => exact fun s mem => by cases mem
  | cons spelled fed marker content plain others ih =>
    rename_i pos s line feed rest sections
    have head := Cursor.passes_of_rest (c := ⟨line ++ feed ++ (s.content.toList ++ rest), pos⟩)
      (List.append_assoc line feed _)
    have start := before.trans (Cursor.passes_of_rest rfl).leads
    have body := (Cursor.passes_of_rest (c := ⟨s.content.toList ++ rest, pos + byteLength (line ++ feed)⟩) rfl).leads
    refine List.forall_mem_cons.2 ⟨⟨?_, ?_, ?_⟩, ih ?_⟩
    · rw [marker]
      exact before.reaches head.leads
    · rw [content]
      exact start.reaches body
    · rw [Section.base, content]
    · rw [content]
      exact start.trans body

namespace Document

theorem allSections_stand (source : String) : ∀ s ∈ allSections source, s.Stands (.start source 0) := by
  obtain ⟨leading, tail, split, -, tiled⟩ := allSections_tiled source
  rw [← Nat.zero_add (byteLength leading)] at tiled
  exact tiled.stands (Cursor.passes_of_rest (c := .start source 0) split).leads

theorem addAll_log (d : Document) (list : List Section) :
    ∀ x ∈ (d.addAll list).2, ∃ s ∈ list, x.region = .span s.markerSpan := by
  induction list generalizing d with
  | nil => exact fun x mem => by cases mem
  | cons s rest ih =>
    intro x mem
    unfold addAll at mem
    cases added : d.add s with
    | ok d' =>
      rw [added] at mem
      obtain ⟨t, later, here⟩ := ih d' x mem
      exact ⟨t, List.mem_cons_of_mem _ later, here⟩
    | error problem =>
      rw [added] at mem
      rcases List.mem_cons.1 mem with rfl | later
      · exact ⟨s, List.mem_cons_self, (add_error added).2.1⟩
      · obtain ⟨t, later, here⟩ := ih d x later
        exact ⟨t, List.mem_cons_of_mem _ later, here⟩

theorem exists_trimEnd_eq {cs} (ink : allBlank cs = false) : ∃ rest, trimEnd cs = cs.takeWhile isBlank ++ rest := by
  induction cs with
  | nil => cases ink
  | cons c cs ih =>
    by_cases blank : isBlank c = true
    · have later : allBlank cs = false := by simpa [blank] using ink
      obtain ⟨rest, split⟩ := ih later
      exact ⟨rest, by rw [trimEnd_cons (.inr later), List.takeWhile_cons_of_pos blank, split, List.cons_append]⟩
    · exact ⟨_, by rw [List.takeWhile_cons_of_neg blank, List.nil_append]⟩

theorem strayText_within {leading s} (mem : s ∈ (strayText leading).spans) : s.Within ⟨0, byteLength leading⟩ := by
  obtain ⟨d, reported, here⟩ := Log.mem_spans.1 mem
  unfold strayText at reported
  split at reported
  · cases reported
  · rename_i ink
    cases List.mem_singleton.1 reported
    cases here
    obtain ⟨rest, start⟩ := exists_trimEnd_eq (Bool.not_eq_true _ ▸ ink)
    obtain ⟨blanks, stop, -⟩ := exists_trimEnd_append leading
    refine ⟨Nat.zero_le _, ?_, ?_⟩
    · simp [start]
    · conv => rhs; rw [stop]
      simp

theorem cut_stands (source filename : String) : ∀ s ∈ (cut source filename).1.parts, s.Stands (.start source 0) := by
  intro s mem
  by_cases none : markers source = []
  · rw [(cut_of_no_markers filename none).1] at mem
    have implicit : s = Section.implicit source := by simpa [parts] using mem
    rw [implicit]
    have start := Cursor.Leads.refl (Cursor.start source 0)
    refine ⟨start.reaches start, ?_, ?_⟩
    · simpa [Cursor.skip, Cursor.start, Section.implicit] using start.reaches start.to_end
    · simp [Section.implicit, Section.base]
  · exact allSections_stand source s ((cut_takes filename none).filed.mem mem)

theorem cut_reports (source filename : String) :
    ∀ s ∈ (cut source filename).2.spans,
      (∃ first ∈ (markers source).head?, s.Within ⟨0, first.start.pos⟩) ∨ ∃ m ∈ markers source, s = m.span := by
  intro s mem
  obtain ⟨d, reported, here⟩ := Log.mem_spans.1 mem
  unfold cut at reported
  dsimp only at reported
  split at reported
  · cases List.mem_singleton.1 reported
    cases here
  · rename_i first others found
    rcases List.mem_append.1 reported with stray | refused
    · have within := strayText_within (Log.mem_spans.2 ⟨d, stray, here⟩)
      obtain ⟨text, passes, -, -⟩ :=
        sections_tiled (Marker.findAll_marked (.start source 0)) (Cursor.passes_skip _ _).leads List.drop_length
      rw [found, firstStart] at passes
      have length : first.start.pos = byteLength text := passes.pos.trans (Nat.zero_add _)
      rw [passes.upTo, ← length] at within
      exact .inl ⟨first, congrArg List.head? found, within⟩
    · obtain ⟨t, listed, at_⟩ := addAll_log _ _ d refused
      have marked : t.markerSpan ∈ (markers source).map Marker.Found.span := by
        rw [← allSections_markerSpan]
        exact List.mem_map_of_mem listed
      obtain ⟨m, marker, same⟩ := List.mem_map.1 marked
      exact .inr ⟨m, marker, (Region.span.inj (here.symm.trans at_)).trans same.symm⟩

end Document

end ComponentCompiler
