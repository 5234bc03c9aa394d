import ComponentCompiler.Position.Span
import ComponentCompiler.Text.Cursor

/-!
# Passages of a text

What is passed on the way from one cursor to another is a passage of the text.
-/

namespace ComponentCompiler

structure Span.Within (s t : Span) : Prop where
  start : t.start ≤ s.start
  le : s.start ≤ s.stop
  stop : s.stop ≤ t.stop

theorem Span.Within.trans {s t u : Span} (inner : s.Within t) (outer : t.Within u) : s.Within u :=
  ⟨Nat.le_trans outer.start inner.start, inner.le, Nat.le_trans inner.stop outer.stop⟩

namespace Text

/-- The offsets between the characters of a text that starts at `pos`, its two ends included. -/
def boundaries (pos : Nat) : List Char → List Nat
  | [] => [pos]
  | x :: rest => pos :: boundaries (pos + x.utf8Size) rest

def slice (s : Span) (pos : Nat) : List Char → List Char
  | [] => []
  | x :: rest =>
    let others := slice s (pos + x.utf8Size) rest
    if s.start ≤ pos && pos < s.stop then x :: others else others

theorem mem_boundaries_append (pos : Nat) (text rest : List Char) :
    pos + byteLength text ∈ boundaries pos (text ++ rest) := by
  induction text generalizing pos with
  | nil => cases rest <;> simp [boundaries]
  | cons x text ih =>
    have later := ih (pos + x.utf8Size)
    rw [Nat.add_assoc] at later
    exact List.mem_cons_of_mem _ later

section

variable {s : Span} {pos : Nat} {text : List Char}

theorem slice_behind (behind : s.stop ≤ pos) : slice s pos text = [] := by
  induction text generalizing pos with
  | nil => rfl
  | cons x text ih =>
    have out : ¬ (s.start ≤ pos && pos < s.stop) = true := by
      simp only [Bool.and_eq_true, decide_eq_true_eq]
      omega
    rw [slice, if_neg out]
    exact ih (Nat.le_trans behind (Nat.le_add_right _ _))

theorem slice_before (rest : List Char) (before : pos + byteLength text ≤ s.start) :
    slice s pos (text ++ rest) = slice s (pos + byteLength text) rest := by
  induction text generalizing pos with
  | nil => rfl
  | cons x text ih =>
    have size := x.utf8Size_pos
    rw [byteLength_cons] at before ⊢
    have out : ¬ (s.start ≤ pos && pos < s.stop) = true := by
      simp only [Bool.and_eq_true, decide_eq_true_eq]
      omega
    rw [List.cons_append, slice, if_neg out, ih (by omega), Nat.add_assoc]

theorem slice_inside (rest : List Char) (start : s.start ≤ pos) (stop : pos + byteLength text ≤ s.stop) :
    slice s pos (text ++ rest) = text ++ slice s (pos + byteLength text) rest := by
  induction text generalizing pos with
  | nil => rfl
  | cons x text ih =>
    have size := x.utf8Size_pos
    rw [byteLength_cons] at stop ⊢
    have within : (s.start ≤ pos && pos < s.stop) = true := by
      simp only [Bool.and_eq_true, decide_eq_true_eq]
      omega
    rw [List.cons_append, slice, if_pos within, ih (by omega) (by omega), Nat.add_assoc, List.cons_append]

end

theorem byteLength_ofList (cs : List Char) : (String.ofList cs).utf8ByteSize = byteLength cs := by
  induction cs with
  | nil => rfl
  | cons x cs ih =>
    rw [byteLength_cons, ← ih, ← List.singleton_append, String.ofList_append, String.utf8ByteSize_append,
      ← String.singleton_eq_ofList, String.utf8ByteSize_singleton]

theorem byteLength_toList (text : String) : byteLength text.toList = text.utf8ByteSize := by
  rw [← byteLength_ofList, String.ofList_toList]

/-- The span covers whole characters of `source`, which starts at offset `base`. -/
structure InText (source : String) (base : Nat) (s : Span) : Prop where
  start : s.start ∈ boundaries base source.toList
  stop : s.stop ∈ boundaries base source.toList
  le : s.start ≤ s.stop
  base_le : base ≤ s.start
  le_end : s.stop ≤ base + source.utf8ByteSize

theorem InText.within {source base s} (inside : InText source base s) :
    s.Within ⟨base, base + byteLength source.toList⟩ :=
  ⟨inside.base_le, inside.le, byteLength_toList source ▸ inside.le_end⟩

namespace Cursor

structure Passes (c : Cursor) (text : List Char) (d : Cursor) : Prop where
  rest : c.rest = text ++ d.rest
  pos : d.pos = c.pos + byteLength text

def Leads (c d : Cursor) : Prop := ∃ text, c.Passes text d

section

variable {a b c d e : Cursor} {text more : List Char} {x : Char} {span : Span}

theorem Passes.nil (c : Cursor) : c.Passes [] c := ⟨rfl, rfl⟩

theorem Passes.append (first : c.Passes text d) (second : d.Passes more e) : c.Passes (text ++ more) e := by
  refine ⟨?_, ?_⟩
  · rw [first.rest, second.rest, List.append_assoc]
  · rw [second.pos, first.pos, byteLength_append, Nat.add_assoc]

theorem Passes.leads (passes : c.Passes text d) : c.Leads d := ⟨text, passes⟩

theorem Passes.upTo (passes : c.Passes text d) : c.upTo d = text := by simp [Cursor.upTo, passes.rest]

theorem Passes.pos_lt (passes : c.Passes (x :: text) d) : c.pos < d.pos := by
  have one := x.utf8Size_pos
  rw [passes.pos, byteLength_cons]
  omega

theorem passes_cons (x : Char) (text : List Char) (pos : Nat) :
    Passes ⟨x :: text, pos⟩ [x] ⟨text, pos + x.utf8Size⟩ := ⟨rfl, rfl⟩

theorem passes_of_rest (split : c.rest = text ++ more) : c.Passes text ⟨more, c.pos + byteLength text⟩ := ⟨split, rfl⟩

theorem passes_skip (c : Cursor) (n : Nat) : c.Passes (c.rest.take n) (c.skip n) :=
  ⟨(List.take_append_drop n c.rest).symm, rfl⟩

theorem passes_dropWhile (c : Cursor) (p : Char → Bool) : c.Passes (c.rest.takeWhile p) (c.dropWhile p) :=
  ⟨List.takeWhile_append_dropWhile.symm, rfl⟩

theorem Leads.refl (c : Cursor) : c.Leads c := ⟨[], .nil c⟩

theorem Leads.trans (first : c.Leads d) (second : d.Leads e) : c.Leads e := by
  obtain ⟨text, passes⟩ := first
  obtain ⟨more, passes'⟩ := second
  exact ⟨text ++ more, passes.append passes'⟩

theorem Leads.pos_le (leads : c.Leads d) : c.pos ≤ d.pos := by
  obtain ⟨text, passes⟩ := leads
  rw [passes.pos]
  exact Nat.le_add_right _ _

theorem Leads.length_le (leads : c.Leads d) : d.rest.length ≤ c.rest.length := by
  obtain ⟨text, passes⟩ := leads
  rw [passes.rest, List.length_append]
  exact Nat.le_add_left _ _

theorem Leads.length_lt (leads : c.Leads d) (moves : c.pos < d.pos) : d.rest.length < c.rest.length := by
  obtain ⟨text, passes⟩ := leads
  cases text with
  | nil => exact absurd passes.pos (Nat.ne_of_gt moves)
  | cons x text =>
    rw [passes.rest, List.length_append, List.length_cons]
    omega

theorem leads_next (c : Cursor) : c.Leads c.next := by
  obtain ⟨rest, pos⟩ := c
  cases rest with
  | nil => exact .refl _
  | cons x rest => exact (passes_cons x rest pos).leads

theorem leads_skipLine (c : Cursor) : c.Leads c.skipLine := (c.passes_dropWhile _).leads.trans (leads_next _)

theorem Leads.to_end (leads : c.Leads d) : d.Leads (c.skip c.rest.length) := by
  obtain ⟨text, passes⟩ := leads
  refine ⟨d.rest, by simp [skip], ?_⟩
  rw [skip, List.take_length, passes.pos, passes.rest, byteLength_append, Nat.add_assoc]

def Covers (c d : Cursor) (span : Span) (text : List Char) : Prop :=
  ∃ a b, c.Leads a ∧ a.Passes text b ∧ b.Leads d ∧ span = ⟨a.pos, b.pos⟩

theorem Covers.widen (covers : c.Covers d span text) (before : a.Leads c) (behind : d.Leads b) :
    a.Covers b span text := by
  obtain ⟨start, stop, first, passes, last, same⟩ := covers
  exact ⟨start, stop, before.trans first, passes, last.trans behind, same⟩

def Reaches (o : Cursor) (span : Span) : Prop := ∃ d text, o.Covers d span text

theorem Leads.reaches (before : a.Leads c) (passed : c.Leads d) : a.Reaches ⟨c.pos, d.pos⟩ := by
  obtain ⟨text, passes⟩ := passed
  exact ⟨d, text, c, d, before, passes, .refl d, rfl⟩

theorem reaches_byte {rest pos} (before : a.Leads ⟨x :: rest, pos⟩) (byte : x.utf8Size = 1) :
    a.Reaches ⟨pos, pos + 1⟩ := by
  have passed := before.reaches (passes_cons x rest pos).leads
  rwa [byte] at passed

theorem Leads.mem_boundaries (leads : c.Leads d) : d.pos ∈ boundaries c.pos c.rest := by
  obtain ⟨text, passes⟩ := leads
  rw [passes.rest, passes.pos]
  exact mem_boundaries_append _ _ _

theorem Leads.pos_le_end (leads : c.Leads d) : d.pos ≤ c.pos + byteLength c.rest := by
  obtain ⟨text, passes⟩ := leads
  rw [passes.rest, passes.pos, byteLength_append]
  omega

theorem Reaches.inText {source base} (reached : (Cursor.start source base).Reaches span) :
    InText source base span := by
  obtain ⟨e, text, a, b, before, passes, -, rfl⟩ := reached
  have reading := passes.leads
  have last := (before.trans reading).pos_le_end
  refine ⟨before.mem_boundaries, (before.trans reading).mem_boundaries, reading.pos_le, before.pos_le, ?_⟩
  exact byteLength_toList source ▸ last

theorem Covers.slice_eq {s text} (covers : c.Covers d s text) : slice s c.pos c.rest = text := by
  obtain ⟨a, b, ⟨lead, before⟩, passes, -, rfl⟩ := covers
  rw [before.rest, slice_before a.rest (Nat.le_of_eq before.pos.symm), ← before.pos, passes.rest,
    slice_inside b.rest (Nat.le_refl _) (Nat.le_of_eq passes.pos.symm), ← passes.pos, slice_behind (Nat.le_refl _),
    List.append_nil]

end

end Cursor

end Text

end ComponentCompiler
