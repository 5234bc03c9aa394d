import ComponentCompiler.Proofs.Outline.Canonical

/-!
# Reading canonical texts

The canonical text of an outline is read as the outline again. `Next` holds what comes behind a line.
-/

namespace ComponentCompiler.Template.Outline

open Text

/-! ### Layout -/

/-- Where a reading of lines stands, up to its offset. -/
structure Stands (text : List Char) (levels : List (List Char)) (pending : List Layout) (r : Reading) : Prop where
  rest : r.cursor.rest = text
  levels : r.levels = levels
  pending : r.pending = pending

def openLevels : Nat → List (List Char)
  | 0 => [indentation 0]
  | depth + 1 => indentation (depth + 1) :: openLevels depth

theorem openLevels_head (depth : Nat) : (openLevels depth).headD [] = indentation depth := by
  cases depth <;> rfl

theorem openLevels_length (depth : Nat) : (openLevels depth).length = depth + 1 := by
  induction depth with
  | zero => rfl
  | succ depth ih => simp [openLevels, ih]

theorem indentation_ne {a b} (other : a ≠ b) : indentation a ≠ indentation b := by
  intro same
  have lengths := congrArg List.length same
  simp only [indentation, List.length_replicate] at lengths
  omega

theorem openLevels_find {depth outer} (h : outer ≤ depth) : indentation outer ∈ openLevels depth ∧
    (openLevels depth).idxOf (indentation outer) = depth - outer ∧
    (openLevels depth).drop (depth - outer) = openLevels outer := by
  induction depth with
  | zero =>
    obtain rfl : outer = 0 := by omega
    simp [openLevels]
  | succ depth ih =>
    rcases Nat.lt_or_eq_of_le h with below | rfl
    · obtain ⟨mem, index, drop⟩ := ih (by omega)
      have apart : indentation (depth + 1) ≠ indentation outer := indentation_ne (by omega)
      rw [show depth + 1 - outer = depth - outer + 1 by omega]
      simp [openLevels, apart, mem, index, drop]
    · simp [openLevels]

/-- The tokens between a line at depth `above` and one at `depth`, or the end. -/
def closing (above depth : Nat) (last : Layout) : List Layout := List.replicate (above - depth) .dedent ++ [last]

theorem place?_openLevels {above depth} (h : depth ≤ above) :
    Layout.place? (openLevels above) (indentation depth) = some (closing above depth .sibling, openLevels depth) := by
  obtain ⟨mem, index, drop⟩ := openLevels_find h
  rw [Layout.place?, openLevels_head]
  split
  · rename_i same
    obtain rfl : depth = above := Decidable.byContradiction fun other => indentation_ne other same
    simp [closing]
  · rename_i other
    have shorter : ¬(indentation above).isPrefixOf (indentation depth) = true := by
      rw [List.isPrefixOf_iff_prefix]
      intro starts
      exact other (starts.eq_of_length_le (by simp [indentation]; omega)).symm
    rw [if_neg shorter, if_pos (List.contains_iff_mem.2 mem), index, drop]
    rfl

theorem place?_deeper (depth : Nat) :
    Layout.place? (openLevels depth) (indentation (depth + 1)) = some ([.indent], openLevels (depth + 1)) := by
  have starts : (indentation depth).isPrefixOf (indentation (depth + 1)) = true := by
    rw [List.isPrefixOf_iff_prefix, indentation, indentation, Nat.mul_succ, List.replicate_add]
    exact List.prefix_append _ _
  rw [Layout.place?, openLevels_head, if_neg (indentation_ne (by omega)), if_pos starts]
  rfl

theorem closeAll_openLevels (depth : Nat) :
    Layout.closeAll (openLevels depth) = (closing depth 0 .eof, openLevels 0) := by
  obtain ⟨-, -, drop⟩ := openLevels_find (Nat.zero_le depth)
  rw [Layout.closeAll, openLevels_length, Nat.add_sub_cancel, ← drop]
  rfl

/-- Lines of canonical texts begin with no character below this one, so not with blanks, feeds or comments. -/
theorem nextLine?_blanks {c} (late : '@' ≤ c) (n pos : Nat) (lead rest : List Char) :
    ∃ stop, Layout.nextLine? false lead pos (List.replicate n ' ' ++ c :: rest) =
      some (lead ++ List.replicate n ' ', ⟨c :: rest, stop⟩) := by
  induction n generalizing lead pos with
  | zero =>
    have other (x : Char) (low : x < '@') : c ≠ x := by
      rintro rfl
      exact absurd late (Char.not_le.2 low)
    have running : Cursor.atLineEnd ⟨c :: rest, pos⟩ = false :=
      atLineEnd_eq_false pos (other _ (by decide)) fun turn => absurd turn (other _ (by decide))
    refine ⟨pos, ?_⟩
    simp [Layout.nextLine?, isInlineBlank, running, other ' ' (by decide), other '\t' (by decide),
      (other '/' (by decide)).symm]
  | succ n ih =>
    obtain ⟨stop, found⟩ := ih (pos + ' '.utf8Size) (lead ++ [' '])
    refine ⟨stop, ?_⟩
    rw [List.replicate_succ, List.cons_append, Layout.nextLine?, if_neg (by decide), if_pos (by decide), found,
      List.append_assoc]
    rfl

/-- What comes behind a line: another one at `depth`, from behind its indentation on, or the end of the text. -/
structure Next where
  depth : Nat
  body : List Char
  last : Layout

namespace Next

def text (next : Next) : List Char := indentation next.depth ++ next.body

inductive Fits (above : Nat) : Next → Prop where
  | line {depth c rest} (outer : depth ≤ above) (late : '@' ≤ c) : Fits above ⟨depth, c :: rest, .sibling⟩
  | eof : Fits above ⟨0, [], .eof⟩

abbrev Reached (above : Nat) (next : Next) : Reading → Prop :=
  Stands next.body (openLevels next.depth) (closing above next.depth next.last)

variable {next : Next} {above : Nat}

theorem Fits.outer (fits : next.Fits above) : next.depth ≤ above := by
  cases fits with
  | line outer late => exact outer
  | eof => exact Nat.zero_le _

theorem Fits.succ (fits : next.Fits above) : next.Fits (above + 1) := by
  cases fits with
  | line outer late => exact .line (Nat.le_succ_of_le outer) late
  | eof => exact .eof

theorem Fits.closing_succ (fits : next.Fits above) :
    closing (above + 1) next.depth next.last = .dedent :: closing above next.depth next.last := by
  rw [closing, Nat.succ_sub fits.outer]
  rfl

theorem Fits.not_indent (fits : next.Fits above) : (closing above next.depth next.last).headD .eof ≠ .indent := by
  unfold closing
  cases above - next.depth <;> cases fits <;> simp [List.replicate_succ]

end Next

section

variable {α : Type} {text mid : List Char} {levels : List (List Char)} {pending tokens : List Layout} {token : Layout}

theorem Reads.inline {read : Read α} {P : α → Prop} (h : Reads read (Shows text) (Shows mid) P) :
    Reads (LineRead.inline read) (Stands text levels pending) (Stands mid levels pending) P := by
  rintro r ⟨shown, same, tokens⟩
  refine (inline_ends (h r.cursor shown)).mono fun a r' done => ?_
  obtain ⟨⟨fine, there⟩, kept⟩ := done
  rw [kept]
  exact ⟨fine, there, same, tokens⟩

theorem reads_blanks : Reads (LineRead.inline (Read.takeWhile isInlineBlank)) (Stands ('\n' :: text) levels pending)
    (Stands ('\n' :: text) levels pending) (· = []) :=
  .inline (reads_takeWhile (List.forall_mem_nil _) rfl)

theorem Stands.atLineEnd {r} (here : Stands ('\n' :: text) levels pending r) : r.cursor.atLineEnd = true := by
  rw [Cursor.atLineEnd, here.rest]
  rfl

theorem reads_pending :
    Reads Layout.peek (Stands text levels (token :: tokens)) (Stands text levels (token :: tokens)) (· = token) := by
  rintro ⟨c, _, _⟩ ⟨rfl, rfl, rfl⟩
  exact ⟨rfl, rfl, rfl, rfl⟩

theorem reads_next :
    Reads Layout.next (Stands text levels (token :: tokens)) (Stands text levels tokens) (· = token) := by
  rintro ⟨c, _, _⟩ ⟨rfl, rfl, rfl⟩
  exact ⟨rfl, rfl, rfl, rfl⟩

theorem dropWhile_newline (text : List Char) (pos : Nat) :
    Cursor.dropWhile ⟨'\n' :: text, pos⟩ isInlineBlank = ⟨'\n' :: text, pos⟩ := rfl

theorem reads_advance {before after : Reading → Prop} (moves : ∀ r, before r → r.pending = [] ∧
      Yields (fun _ => False) (fun r' => r'.pending.headD .eof = token ∧ after r') (Layout.advance r)) :
    Reads Layout.peek before after (· = token) := by
  intro r here
  obtain ⟨none, moved⟩ := moves r here
  unfold Layout.peek
  rw [run_reading, none]
  exact (Ends.lift moved).bind fun r' _ done => done.1

theorem reads_peek_line {depth c opened} (late : '@' ≤ c)
    (placed : Layout.place? levels (indentation depth) = some (tokens, opened)) :
    Reads Layout.peek (Stands ('\n' :: (indentation depth ++ c :: text)) levels []) (Stands (c :: text) opened tokens)
      (· = tokens.headD .eof) := by
  refine reads_advance ?_
  rintro ⟨⟨_, pos⟩, _, _⟩ ⟨rfl, rfl, rfl⟩
  obtain ⟨stop, found⟩ := nextLine?_blanks late (4 * depth) (pos + '\n'.utf8Size) [] text
  have line : Layout.firstLine? (Cursor.skipLine ⟨'\n' :: (indentation depth ++ c :: text), pos⟩) =
      some (indentation depth, ⟨c :: text, stop⟩) := found
  refine ⟨rfl, ?_⟩
  simp only [Layout.advance, dropWhile_newline, line, placed]
  exact ⟨rfl, rfl, rfl, rfl⟩

theorem reads_peek_next {depth} {next : Next} (fits : next.Fits depth) :
    Reads Layout.peek (Stands ('\n' :: next.text) (openLevels depth) []) (next.Reached depth)
      (· = (closing depth next.depth next.last).headD .eof) := by
  cases fits with
  | line outer late => exact reads_peek_line late (place?_openLevels outer)
  | eof =>
    refine reads_advance ?_
    rintro ⟨⟨_, pos⟩, _, _⟩ ⟨rfl, rfl, rfl⟩
    refine ⟨rfl, ?_⟩
    have none : Layout.firstLine? (Cursor.skipLine ⟨'\n' :: Next.text ⟨0, [], .eof⟩, pos⟩) = none := rfl
    simp only [Layout.advance, dropWhile_newline, none, closeAll_openLevels]
    exact ⟨rfl, rfl, rfl, rfl⟩

end

/-! ### Starts of lines -/

theorem Reads.spanned {m : Read α} {before after Q} (read : Reads m (Shows before) (Shows after) Q) :
    Reads (Outline.spanned m) (Shows before) (Shows after) (Q ·.1) :=
  reads_pos.bind fun _ _ => read.bind fun _ holds => reads_spanFrom.bind fun _ _ => .pure holds

theorem reads_headerPart {h : Header} {first part rest} (header : h.WellFormed first part)
    (apart : ['#', '.', '(', '\n'].any part = false) :
    Reads (headerPart part) (Shows (h.written ++ '\n' :: rest)) (Shows ('\n' :: rest))
      (·.respan .erased = h.respan .erased) := by
  have ends : Heads ['(', '\n'] (attributesText h.attributes ++ '\n' :: rest) := by
    cases h.attributes with
    | nil => exact ⟨'\n', by decide, _, rfl⟩
    | cons a as => exact ⟨'(', by decide, _, rfl⟩
  have nameEnd : Heads ['#', '.', '(', '\n']
      (h.shorthands.flatMap Shorthand.written ++ (attributesText h.attributes ++ '\n' :: rest)) :=
    .flatMap (fun s _ => s.written_heads) (ends.mono (by simp))
  rw [Header.written, List.append_assoc, List.append_assoc]
  refine (reads_takeWhile header.name.parts (nameEnd.stops apart)).known ?_
  refine (reads_shorthands header.shorthands ends).bind fun _ short => ?_
  refine (reads_attributes header.attributes ⟨'\n', by decide, rest, rfl⟩).bind fun _ listed => ?_
  exact .pure (by rw [Header.respan, short, listed, String.ofList_toList]; rfl)

theorem reads_directivePart {d : Directive} {rest} (named : d.WellFormed) :
    Reads directivePart (Shows (d.written ++ '\n' :: rest)) (Shows ('\n' :: rest))
      (·.respan .erased = d.respan .erased) := by
  have ends : Heads ['(', '\n'] ((d.argument.toList.flatMap fun code => codeText '(' code ')') ++ '\n' :: rest) :=
    .flatMap (fun code _ => ⟨'(', by decide, _, rfl⟩) ⟨'\n', by decide, rest, rfl⟩
  rw [Directive.written, List.cons_append, List.cons_append, List.append_assoc]
  refine (reads_accept ['@']).bind fun _ _ => reads_pos.bind fun _ _ => ?_
  refine (reads_name named.name (ends.stops rfl)).known (reads_spanFrom.bind fun span _ => reads_peek.known ?_)
  have ending {argument : Option Code}
      (same : argument.map (Code.respan .erased) = d.argument.map (Code.respan .erased)) :
      Reads (pure (Directive.mk d.name span argument)) (Shows ('\n' :: rest)) (Shows ('\n' :: rest))
        (·.respan .erased = d.respan .erased) := .pure (by rw [Directive.respan, same]; rfl)
  cases given : d.argument with
  | none => exact .ite_neg (by simp) (Reads.known (a := none) (.pure rfl) (ending (by rw [given])))
  | some code =>
    rw [Option.toList_some, List.flatMap_singleton]
    refine .ite_pos rfl (Reads.bind ((reads_delimited (named.argument code given)).map
      (Q := fun found => found.map (Code.respan .erased) = d.argument.map (Code.respan .erased)) ?_) fun _ => ending)
    exact fun _ same => by rw [given, Option.map_some, same]; rfl

/-! ### Blocks -/

def ReadsItem (line : LineRead Item) (depth : Nat) (i : Item) : Prop :=
  ∀ next : Next, next.Fits depth → Reads line (Stands (itemText depth i ++ next.text) (openLevels depth) [])
    (next.Reached depth) (·.respan .erased = i.respan .erased)

theorem Item.WellFormed.starts {i} (fine : i.WellFormed) (depth : Nat) :
    ∃ c rest, itemText depth i = c :: rest ∧ '@' ≤ c := by
  cases fine with
  | tag line below | component line below =>
    obtain ⟨c, cs, chars, start⟩ := line.name.cons
    simp only [isTagStart, isComponentStart, Bool.and_eq_true, decide_eq_true_eq] at start
    exact ⟨c, _, by simp only [itemText, Header.written, chars]; rfl, Char.le_trans (by decide) start.1⟩
  | text line => exact ⟨'|', _, rfl, by decide⟩
  | directive line below blockless => exact ⟨'@', _, rfl, by decide⟩

theorem Item.WellFormed.fits {i} (fine : i.WellFormed) (depth : Nat) (rest : List Char) :
    Next.Fits depth ⟨depth, itemText depth i ++ rest, .sibling⟩ := by
  obtain ⟨c, more, shown, late⟩ := fine.starts depth
  rw [shown]
  exact .line (Nat.le_refl _) late

theorem itemText_length_pos (depth : Nat) (i : Item) : 0 < (itemText depth i).length := by
  refine List.length_pos_iff.2 ?_
  cases i <;> simp [itemText]

theorem itemsText_length (depth : Nat) (items : List Item) : items.length ≤ (itemsText depth items).length ∧
    ∀ i ∈ items, (itemText depth i).length ≤ (itemsText depth items).length := by
  induction items with
  | nil => simp
  | cons i items ih =>
    have some := itemText_length_pos depth i
    obtain ⟨count, each⟩ := ih
    simp only [itemsText, List.length_append, List.length_cons, List.forall_mem_cons]
    refine ⟨by omega, by omega, fun j mem => ?_⟩
    have := each j mem
    omega

section

variable {line : LineRead Item} {depth : Nat} {next : Next} {items : List Item}

theorem reads_lines {i} (fine : ∀ j ∈ items, j.WellFormed) (each : ∀ j ∈ i :: items, ReadsItem line depth j)
    (fits : next.Fits depth) {token more} (split : closing depth next.depth next.last = token :: more)
    (ends : token = .dedent ∨ token = .eof) :
    Reads (lines line) (Stands (itemText depth i ++ (itemsText depth items ++ next.text)) (openLevels depth) [])
      (next.Reached depth) (respanItems .erased · = respanItems .erased (i :: items)) := by
  have go (n : Nat) (enough : items.length < n) : Reads (lines.go line n)
      (Stands (itemText depth i ++ (itemsText depth items ++ next.text)) (openLevels depth) [])
      (next.Reached depth) (respanItems .erased · = respanItems .erased (i :: items)) := by
    induction items generalizing i n with
    | nil =>
      obtain _ | n := n
      · cases enough
      refine (each i List.mem_cons_self next fits).bind fun found same => ?_
      rw [Next.Reached, split]
      refine reads_pending.known ?_
      rcases ends with rfl | rfl <;> exact .pure (by rw [respanItems, respanItems, same]; rfl)
    | cons j items ih =>
      obtain _ | n := n
      · cases enough
      obtain ⟨jFine, later⟩ := List.forall_mem_cons.1 fine
      obtain ⟨iReads, others⟩ := List.forall_mem_cons.1 each
      rw [itemsText, List.append_assoc, List.append_assoc]
      refine (iReads _ (jFine.fits depth _)).bind fun found same => ?_
      rw [Next.Reached, closing, Nat.sub_self]
      refine reads_pending.known (reads_next.known ?_)
      refine (ih later others n (Nat.lt_of_succ_lt_succ enough)).bind fun rest same' => .pure ?_
      rw [respanItems, respanItems, same, same']
  refine .get fun r here => go _ ?_
  have := (itemsText_length depth items).1
  simp only [here.rest, List.length_append]
  omega

/-- The reader of what is behind the start of a line reads the rest of it and its block. -/
def ReadsBelow (read : LineRead (List Item)) (depth : Nat) (items : List Item) : Prop :=
  ∀ next : Next, next.Fits depth →
  Reads read (Stands ('\n' :: (itemsText (depth + 1) items ++ next.text)) (openLevels depth) [])
    (next.Reached depth) (respanItems .erased · = respanItems .erased items)

theorem reads_noBlock (fits : next.Fits depth) :
    Reads LineRead.noBlock (Stands ('\n' :: next.text) (openLevels depth) []) (next.Reached depth) fun _ => True :=
  (reads_peek_next fits).known (.ite_neg fits.not_indent (.pure trivial))

theorem reads_textLine {fragments span} (fine : IsTextLine fragments) :
    ReadsItem textLine depth (.text fragments span) := by
  intro next fits
  have part : Reads textLinePart (Shows (['|'] ++ ([' '] ++ (fragments.flatMap fragmentText ++ '\n' :: next.text))))
      (Shows ('\n' :: next.text)) (·.map (Fragment.respan .erased) = fragments.map (Fragment.respan .erased)) :=
    (reads_accept _).bind fun _ _ => (reads_accept _).bind fun _ _ => reads_textRun fine
  rw [textLine_eq, itemText, List.cons_append, List.cons_append, List.append_assoc]
  refine part.spanned.inline.bind fun a same => (reads_noBlock fits).bind fun _ _ => .pure ?_
  rw [Item.respan, same]
  rfl

variable (fine : ∀ j ∈ items, j.WellFormed) (each : ∀ j ∈ items, ReadsItem line (depth + 1) j)

include fine each

theorem reads_block : ReadsBelow (block line) depth items := by
  intro next fits
  cases items with
  | nil => exact (reads_peek_next fits).known (.ite_neg fits.not_indent (.pure rfl))
  | cons i items =>
    obtain ⟨iFine, later⟩ := List.forall_mem_cons.1 fine
    obtain ⟨c, rest, shown, late⟩ := iFine.starts (depth + 1)
    have below := reads_lines later each fits.succ fits.closing_succ (.inl rfl)
    rw [itemsText, List.append_assoc, List.append_assoc]
    rw [Next.Reached, fits.closing_succ, shown] at below
    rw [shown]
    refine (reads_peek_line late (place?_deeper depth)).known (.ite_pos rfl (reads_next.known ?_))
    exact below.bind fun found same => reads_next.known (.pure same)

theorem reads_tail {allowText} : ReadsBelow (tail line allowText) depth items := by
  intro next fits
  refine (reads_accept_other rfl).inline.known (.ite_neg (by decide) ?_)
  exact reads_blanks.bind fun _ _ => .get fun r here => .ite_pos here.atLineEnd (reads_block fine each next fits)

/-- Tags and components are told by the first character of their names. -/
theorem reads_element {h : Header} {span first part} (make : Header → List Item → Span → Item)
    (header : h.WellFormed first part) (apart : ['#', '.', '(', '\n'].any part = false)
    (written : itemText depth (make h items span) = h.written ++ '\n' :: itemsText (depth + 1) items)
    (made : ∀ g below place, (make g below place).respan .erased =
      make (g.respan .erased) (respanItems .erased below) place.erased) :
    ∃ c, first c = true ∧ (itemText depth (make h items span)).head? = some c ∧
      ReadsItem (element line part make) depth (make h items span) := by
  obtain ⟨c, cs, chars, start⟩ := header.name.cons
  refine ⟨c, start, by simp [written, Header.written, chars], fun next fits => ?_⟩
  rw [written, List.append_assoc, List.cons_append, element_eq]
  refine (reads_headerPart header apart).spanned.inline.bind fun a same => ?_
  exact (reads_tail fine each next fits).bind fun below kept => .pure (by rw [made, made, same, kept]; rfl)

theorem reads_directiveTail {name} (blockless : isBlockless name = true → items = []) :
    ReadsBelow (directiveTail line name) depth items := by
  intro next fits
  by_cases single : isBlockless name = true
  · obtain rfl := blockless single
    refine .ite_pos single (reads_blanks.bind fun _ _ => .get fun r here => .ite_pos here.atLineEnd ?_)
    exact (reads_noBlock fits).bind fun _ _ => .pure rfl
  · exact .ite_neg single (reads_tail fine each next fits)

theorem reads_directive {d span} (named : d.WellFormed) (blockless : isBlockless d.name = true → items = []) :
    ReadsItem (directive line) depth (.directive d items span) := by
  intro next fits
  rw [itemText, List.append_assoc, List.cons_append, directive_parts]
  refine (reads_directivePart named).spanned.inline.bind fun a same => ?_
  have name : a.1.name = d.name := by simpa [Directive.respan] using congrArg Directive.name same
  refine (reads_directiveTail fine each (by rwa [name]) next fits).bind fun below kept => .pure ?_
  rw [Item.respan, same, kept]
  rfl

end

theorem reads_line {i} (fine : i.WellFormed) {depth bound} (enough : (itemText depth i).length ≤ bound) :
    ReadsItem (line bound) depth i := by
  induction bound generalizing i depth with
  | zero => exact absurd (itemText_length_pos depth i) (by omega)
  | succ bound ih =>
    have below {children : List Item} (fine : ∀ j ∈ children, j.WellFormed)
        (fits : (itemsText (depth + 1) children).length < (itemText depth i).length) :
        ∀ j ∈ children, ReadsItem (line bound) (depth + 1) j := fun j mem =>
      ih (fine j mem) (by have := (itemsText_length (depth + 1) children).2 j mem; omega)
    intro next fits
    refine reads_peek.inline.known ?_
    cases fine with
    | tag named fine =>
      obtain ⟨c, start, head, read⟩ :=
        reads_element fine (below fine (by simp [itemText]; omega)) .tag named rfl rfl fun _ _ _ => rfl
      rw [List.head?_append, head]
      exact .ite_pos start (read next fits)
    | component named fine =>
      obtain ⟨c, start, head, read⟩ :=
        reads_element fine (below fine (by simp [itemText]; omega)) .component named rfl rfl fun _ _ _ => rfl
      have upper : ¬isTagStart c = true := by
        simp only [isComponentStart, isTagStart, Bool.and_eq_true, decide_eq_true_eq] at start ⊢
        exact fun lower => absurd (Char.le_trans lower.1 start.2) (by decide)
      rw [List.head?_append, head]
      exact .ite_neg upper (.ite_pos start (read next fits))
    | text line => exact reads_textLine line next fits
    | directive named fine blockless =>
      exact reads_directive fine (below fine (by simp [itemText]; omega)) named blockless next fits

theorem reads_template {items i bound} (fine : ∀ j ∈ i :: items, j.WellFormed)
    (enough : (itemsText 0 (i :: items)).length ≤ bound) :
    Reads (template bound) (Stands (itemsText 0 (i :: items)) (openLevels 0) []) (fun _ => True)
      (respanItems .erased · = respanItems .erased (i :: items)) := by
  have each : ∀ j ∈ i :: items, ReadsItem (line bound) 0 j := fun j mem =>
    reads_line (fine j mem) (Nat.le_trans ((itemsText_length 0 _).2 j mem) enough)
  have all := reads_lines (List.forall_mem_cons.1 fine).2 each .eof rfl (.inr rfl)
  have text : itemText 0 i ++ (itemsText 0 items ++ Next.text ⟨0, [], .eof⟩) = itemsText 0 (i :: items) := by
    simp [itemsText, indentation, Next.text]
  rw [text] at all
  exact all.bind fun found same => reads_next.known (fun _ _ => ⟨same, trivial⟩)

theorem parse_itemsText {items} (fine : ∀ i ∈ items, i.WellFormed) (base : Nat) :
    ∃ again, parse (String.ofList (itemsText 0 items)) base = .ok again ∧
      respanItems .erased again = respanItems .erased items := by
  cases items with
  | nil => exact ⟨[], rfl, rfl⟩
  | cons i items =>
    obtain ⟨c, rest, shown, late⟩ := (fine i List.mem_cons_self).starts 0
    have text : itemsText 0 (i :: items) = c :: (rest ++ itemsText 0 items) := by
      rw [itemsText, shown]
      rfl
    obtain ⟨pos, found⟩ := nextLine?_blanks late 0 base [] (rest ++ itemsText 0 items)
    have first : Layout.firstLine? ⟨itemsText 0 (i :: items), base⟩ = some ([], ⟨itemsText 0 (i :: items), pos⟩) := by
      rw [text]
      exact found
    simp only [parse, Cursor.start, String.toList_ofList, first]
    exact (reads_template fine (Nat.le_succ _)).gives ⟨rfl, rfl, rfl⟩

theorem exists_ok_of_shown {x : Except ε α} {f : α → β} {b} {P : α → Prop} (shown : x.toOption.map f = some b)
    (h : ∀ a, x = .ok a → P a) : ∃ a, x = .ok a ∧ f a = b ∧ P a := by
  cases x with
  | error e => cases shown
  | ok a => exact ⟨a, rfl, Option.some.inj shown, h a rfl⟩

/-- The canonical text of every outline that was read is read as the same outline. -/
theorem parse_render {source : String} {base : Nat} {items : List Item} (read : parse source base = .ok items)
    (base' : Nat) :
    ∃ again, parse (render items) base' = .ok again ∧ respanItems .erased again = respanItems .erased items :=
  parse_itemsText (parse_wellFormed read) base'

/-- With a comment at the end of code, a backslash in a string, an inline child and braces before code. -/
theorem parse_render_inline_child : ∃ items,
    parse ("ul.\x7ba // b\n\x7d(title=\"\\\\\" @x|once): @if(y)\n" ++
      "  | \\\x7b\x7b\x7b \x7b\x7b z \x7d\x7d\n") 0 = .ok items ∧
    render items =
      "ul.\x7ba // b\n\x7d( title=\"\\\\\" @x|once)\n    @if(y\n)\n        | \x7b\\\x7b\x7b \x7b\x7b z \x7d\x7d\n" ∧
    ∃ again, parse (render items) 5 = .ok again ∧ respanItems .erased again = respanItems .erased items :=
  exists_ok_of_shown (by decide +kernel) fun _ read => parse_render read 5

end ComponentCompiler.Template.Outline
