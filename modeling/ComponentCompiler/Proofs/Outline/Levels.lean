import ComponentCompiler.Proofs.Outline.Positions
import Mathlib.Data.List.Chain

/-!
# Open levels

Every level that an `indent` opens is closed by a `dedent`: `taken_brackets`.
-/

namespace ComponentCompiler.Template.Layout

open Text Cursor

/-- A line of the text from `o` on starts at `c`. -/
def StartsAt (o c : Cursor) : Prop := ∃ before, o.Passes before c ∧ (before = [] ∨ before.getLast? = some '\n')

structure Indented (o : Cursor) (lead : List Char) (line : Cursor) : Prop where
  starts : ∃ c, StartsAt o c ∧ c.Passes lead line
  blank : lead.all isInlineBlank = true
  text : line.peek?.any isInlineBlank = false

section

variable {o c d : Cursor} {lead : List Char}

theorem StartsAt.leads (starts : StartsAt o c) : o.Leads c := starts.imp fun _ => And.left

theorem StartsAt.trans (first : StartsAt o c) (second : StartsAt c d) : StartsAt o d := by
  obtain ⟨before, passes, ends⟩ := first
  obtain ⟨more, passes', ends'⟩ := second
  refine ⟨before ++ more, passes.append passes', ?_⟩
  rcases ends' with rfl | last
  · rwa [List.append_nil]
  · exact .inr (by rw [List.getLast?_append, last]; rfl)

theorem startsAt_feed {rest pos} (leads : o.Leads ⟨'\n' :: rest, pos⟩) : StartsAt o ⟨rest, pos + '\n'.utf8Size⟩ := by
  obtain ⟨text, passes⟩ := leads
  exact ⟨text ++ ['\n'], passes.append (passes_cons _ _ _), .inr List.getLast?_concat⟩

theorem Indented.from (indented : Indented c lead d) (starts : StartsAt o c) : Indented o lead d :=
  ⟨indented.starts.imp fun _ => And.imp_left starts.trans, indented.blank, indented.text⟩

theorem nextLine?_indented {inLine lead' text pos} (found : nextLine? inLine lead pos text = some (lead', d))
    (leads : o.Leads ⟨text, pos⟩)
    (indented : inLine = false → ∃ c, StartsAt o c ∧ c.Passes lead ⟨text, pos⟩ ∧ lead.all isInlineBlank = true) :
    Indented o lead' d := by
  induction text generalizing inLine lead pos with
  | nil => cases found
  | cons x rest ih =>
    have passed := passes_cons x rest pos
    -- Behind a line feed a line starts anew, behind any other passed character its line goes on.
    have anew : nextLine? (x ≠ '\n') [] (pos + x.utf8Size) rest = some (lead', d) → Indented o lead' d := by
      intro found
      refine ih found (leads.trans passed.leads) fun ended => ?_
      obtain rfl : x = '\n' := by simpa using ended
      exact ⟨_, startsAt_feed leads, .nil _, rfl⟩
    unfold nextLine? at found
    split at found
    · exact anew found
    rename_i start
    obtain ⟨c, starts, passes, blank⟩ := indented (Bool.eq_false_iff.2 start)
    split at found
    · rename_i here
      refine ih found (leads.trans passed.leads) fun _ => ⟨c, starts, passes.append passed, ?_⟩
      rw [List.all_append, blank, List.all_cons, here]
      rfl
    rename_i here
    split at found
    · exact anew found
    · cases found
      exact ⟨⟨c, starts, passes⟩, blank, Bool.eq_false_iff.2 here⟩

theorem firstLine?_indented (found : firstLine? c = some (lead, d)) : Indented c lead d :=
  nextLine?_indented found (.refl c) fun _ => ⟨c, ⟨[], .nil c, .inl rfl⟩, .nil c, rfl⟩

theorem dropWhile_feed (c : Cursor) :
    (c.dropWhile (· ≠ '\n')).rest = [] ∨ ∃ rest, (c.dropWhile (· ≠ '\n')).rest = '\n' :: rest := by
  have first := List.head?_dropWhile_not (· ≠ '\n') c.rest
  unfold Cursor.dropWhile
  cases left : c.rest.dropWhile (· ≠ '\n') with
  | nil => exact .inl rfl
  | cons x rest =>
    rw [left] at first
    obtain rfl : x = '\n' := by simpa using first
    exact .inr ⟨rest, rfl⟩

theorem startsAt_skipLine (leads : o.Leads c) (found : firstLine? c.skipLine = some (lead, d)) :
    StartsAt o c.skipLine ∧ c.skipLine.rest.length < c.rest.length := by
  have passes := c.passes_dropWhile (· ≠ '\n')
  have there := leads.trans passes.leads
  have short := congrArg List.length passes.rest
  have feed := dropWhile_feed c
  unfold skipLine at found ⊢
  generalize c.dropWhile (· ≠ '\n') = e at there short feed found
  obtain ⟨rest, pos⟩ := e
  obtain rfl | ⟨rest, rfl⟩ := feed
  · cases found
  · refine ⟨startsAt_feed there, ?_⟩
    simp only [List.length_append, List.length_cons] at short
    show rest.length < c.rest.length
    omega

end

/-- A level is indented as the one around it is, and more. -/
def Deeper (inner outer : List Char) : Prop := outer <+: inner ∧ outer ≠ inner

/-- Tokens that close levels before a line or the end of the text, `levels` open behind them. -/
inductive Closing (levels : List (List Char)) : List Layout → Prop where
  | line : Closing levels [.sibling]
  | eof (base : levels.length = 1) : Closing levels [.eof]
  | dedent {tokens : List Layout} (rest : Closing levels tokens) : Closing levels (.dedent :: tokens)

/-- The tokens that are due at the end of a line, with `before` open before it and `levels` behind it. -/
structure Due (before levels : List (List Char)) (tokens : List Layout) : Prop where
  chain : levels.IsChain Deeper
  some : levels ≠ []
  shape : tokens = [.indent] ∨ Closing levels tokens
  balance : levels.length + tokens.count .dedent = before.length + tokens.count .indent

section

variable {levels levels' : List (List Char)} {lead : List Char} {tokens : List Layout}

theorem closing_replicate (k : Nat) {last} (ends : Closing levels [last]) :
    Closing levels (List.replicate k .dedent ++ [last]) := by
  induction k with
  | zero => exact ends
  | succ k ih => exact .dedent ih

theorem Closing.counts (closing : Closing levels tokens) :
    tokens.count .indent = 0 ∧ tokens.length = tokens.count .dedent + 1 := by
  induction closing with
  | line => exact ⟨rfl, rfl⟩
  | eof => exact ⟨rfl, rfl⟩
  | dedent _ ih => simpa using ih

theorem due_drop (chain : levels.IsChain Deeper) {k : Nat} (inside : k < levels.length) {last : Layout}
    (ends : Closing (levels.drop k) [last]) (line : last ≠ .dedent ∧ last ≠ .indent) :
    Due levels (levels.drop k) (List.replicate k .dedent ++ [last]) where
  chain := chain.drop k
  some := by simpa using inside
  shape := .inr (closing_replicate k ends)
  balance := by
    have dedents : (List.replicate k Layout.dedent ++ [last]).count .dedent = k := by simp [line.1]
    have indents : (List.replicate k Layout.dedent ++ [last]).count .indent = 0 := by
      simp [line.2, List.count_replicate]
    rw [dedents, indents, List.length_drop]
    omega

theorem place?_due (chain : levels.IsChain Deeper) (some : levels ≠ [])
    (placed : place? levels lead = .some (tokens, levels')) :
    Due levels levels' tokens ∧ levels'.head? = .some lead := by
  obtain ⟨top, outer, rfl⟩ := List.exists_cons_of_ne_nil some
  unfold place? at placed
  split at placed
  · rename_i same
    cases placed
    exact ⟨due_drop (k := 0) chain (Nat.zero_lt_succ _) .line ⟨nofun, nofun⟩, congrArg _ same.symm⟩
  rename_i other
  split at placed
  · rename_i deeper
    cases placed
    refine ⟨⟨.cons_cons ⟨List.isPrefixOf_iff_prefix.1 deeper, fun same => other same.symm⟩ chain, nofun, .inl rfl, rfl⟩,
      rfl⟩
  split at placed
  · rename_i known
    cases placed
    have inside := List.idxOf_lt_length_of_mem (List.contains_iff_mem.1 known)
    refine ⟨due_drop chain inside .line ⟨nofun, nofun⟩, ?_⟩
    rw [List.head?_drop, List.getElem?_eq_getElem inside, List.getElem_idxOf]
  · cases placed

theorem place?_eq_none : place? levels lead = none ↔ lead ∉ levels ∧ ¬ levels.headD [] <+: lead := by
  unfold place?
  cases levels with
  | nil => by_cases none : lead = [] <;> simp [none]
  | cons top outer =>
    rw [List.headD_cons]
    by_cases same : lead = top
    · simp [same]
    · by_cases deeper : top <+: lead <;> by_cases known : lead ∈ outer <;> simp [same, deeper, known]

theorem closeAll_due (chain : levels.IsChain Deeper) (some : levels ≠ []) :
    Due levels (closeAll levels).2 (closeAll levels).1 := by
  have inside := List.length_pos_iff.2 some
  exact due_drop chain (by omega) (.eof (by rw [List.length_drop]; omega)) ⟨nofun, nofun⟩

end

/-- The fault at a line whose indentation is none of the open levels and goes not deeper. -/
def Misplaced (r : Reading) (e : ParseError) : Prop :=
  ∃ lead line, firstLine? (r.cursor.dropWhile isInlineBlank).skipLine = some (lead, line) ∧ lead ∉ r.levels ∧
    ¬ r.levels.headD [] <+: lead ∧ e = .inconsistentDedent ⟨line.pos - byteLength lead, line.pos⟩

/-- What computing tokens leads to: the tokens that are due, at the next line or at the end of the text. -/
structure Advanced (r r' : Reading) : Prop where
  leads : r.cursor.Leads r'.cursor
  due : r.levels.IsChain Deeper → r.levels ≠ [] → Due r.levels r'.levels r'.pending
  shorter : .eof ∉ r'.pending → r'.cursor.rest.length < r.cursor.rest.length
  line : r.levels.IsChain Deeper → r.levels ≠ [] → .eof ∉ r'.pending →
    ∀ o : Cursor, o.Leads r.cursor → Indented o (r'.levels.headD []) r'.cursor

section

variable {r : Reading}

theorem advance_ends (r : Reading) :
    Yields (fun e => Misplaced r e ∨ (r.cursor.dropWhile isInlineBlank).atLineEnd = false ∧
      e = .unexpectedAt (r.cursor.dropWhile isInlineBlank) .lineEnd) (Advanced r) (advance r) := by
  have blanks := (r.cursor.passes_dropWhile isInlineBlank).leads
  unfold advance
  dsimp only
  split
  · rename_i inside
    exact .inr ⟨by simpa using inside, rfl⟩
  have line := blanks.trans (leads_skipLine (r.cursor.dropWhile isInlineBlank))
  cases found : firstLine? (r.cursor.dropWhile isInlineBlank).skipLine with
  | none =>
    have last : .eof ∈ (closeAll r.levels).1 := by simp [closeAll]
    exact ⟨line.trans (passes_skip _ _).leads, closeAll_due, (absurd last ·), fun _ _ => (absurd last ·)⟩
  | some next =>
    obtain ⟨lead, start⟩ := next
    have indented := firstLine?_indented found
    obtain ⟨c, starts, passes⟩ := indented.starts
    have there := starts.leads.trans passes.leads
    dsimp only
    cases placed : place? r.levels lead with
    | none =>
      obtain ⟨unknown, shallow⟩ := place?_eq_none.1 placed
      exact .inl ⟨lead, start, found, unknown, shallow, rfl⟩
    | some after =>
      have short := (startsAt_skipLine (.refl _) found).2
      refine ⟨line.trans there, fun chain some => (place?_due chain some placed).1, fun _ => ?_, ?_⟩
      · exact Nat.lt_of_le_of_lt there.length_le (Nat.lt_of_lt_of_le short blanks.length_le)
      · intro chain some _ o leads
        rw [List.headD_eq_head?_getD, (place?_due chain some placed).2]
        exact indented.from (startsAt_skipLine (leads.trans blanks) found).1

theorem next_run (r : Reading) : next.run r = match r.pending with
    | token :: rest => .ok (token, { r with pending := rest })
    | [] => (advance r).map fun r' => (r'.pending.headD .eof, { r' with pending := r'.pending.tail }) := by
  obtain ⟨cursor, levels, pending⟩ := r
  cases pending with
  | cons token rest => rfl
  | nil =>
    simp only [next, peek, StateT.run_bind, StateT.run_get, pure_bind, bind_assoc]
    cases advance ⟨cursor, levels, []⟩ <;> rfl

end

/-- The text of a line is skipped once all its tokens are taken. -/
def settle (token : Layout) (r : Reading) : Reading :=
  if token = .indent ∨ token = .sibling then { r with cursor := r.cursor.dropWhile (· ≠ '\n') } else r

/-- Taking `tokens` from the text of `source` and skipping its lines leaves `r`. -/
inductive Taken (source : String) (base : Nat) : List Layout → Reading → Prop where
  | start {lead : List Char} {line : Cursor} (first : firstLine? (.start source base) = some (lead, line)) :
      Taken source base [] (settle .sibling ⟨line, [lead], []⟩)
  | token {tokens : List Layout} {r r' : Reading} {t : Layout} (before : Taken source base tokens r)
      (going : .eof ∉ tokens) (taken : next.run r = .ok (t, r')) : Taken source base (tokens ++ [t]) (settle t r')

/-- Where taking tokens stands: at the end of a line, before a line or the end of the text with levels to close, or
at the end of the text. -/
inductive At (o : Cursor) (tokens : List Layout) (r : Reading) : Prop where
  | lineEnd {line : Cursor} (none : r.pending = []) (going : .eof ∉ tokens) (here : Indented o (r.levels.headD []) line)
      (skipped : r.cursor = line.dropWhile (· ≠ '\n'))
  | closing (due : Closing r.levels r.pending) (going : .eof ∉ tokens)
      (ahead : .eof ∉ r.pending → Indented o (r.levels.headD []) r.cursor)
  | textEnd {before : List Layout} (none : r.pending = []) (base : r.levels.length = 1)
      (last : tokens = before ++ [.eof])
      (sole : .eof ∉ before)

structure Levelled (o : Cursor) (tokens : List Layout) (r : Reading) : Prop where
  chain : r.levels.IsChain Deeper
  some : r.levels ≠ []
  balance : tokens.count .indent + 1 = tokens.count .dedent + r.pending.count .dedent + r.levels.length
  stands : At o tokens r

section

variable {o : Cursor} {tokens : List Layout} {r r' : Reading} {t : Layout}

theorem atLineEnd_feed (c : Cursor) : ((c.dropWhile (· ≠ '\n')).dropWhile isInlineBlank).atLineEnd = true := by
  have feed := dropWhile_feed c
  generalize c.dropWhile (· ≠ '\n') = d at feed
  obtain ⟨rest, pos⟩ := d
  obtain rfl | ⟨rest, rfl⟩ := feed <;> rfl

theorem advance_misplaced {e} (ends : (r.cursor.dropWhile isInlineBlank).atLineEnd = true)
    (misplaced : Misplaced r e) : advance r = .error e := by
  obtain ⟨lead, line, found, unknown, shallow, rfl⟩ := misplaced
  simp only [advance, ends, found, place?_eq_none.2 ⟨unknown, shallow⟩, Bool.not_true, Bool.false_eq_true, if_false]

theorem levelled_pop {rest} (shape : t :: rest = [.indent] ∨ Closing r.levels (t :: rest))
    (chain : r.levels.IsChain Deeper) (some : r.levels ≠ []) (going : .eof ∉ tokens)
    (balance : tokens.count .indent + (t :: rest).count .indent + 1 =
      tokens.count .dedent + (t :: rest).count .dedent + r.levels.length)
    (ahead : .eof ∉ t :: rest → Indented o (r.levels.headD []) r.cursor) :
    Levelled o (tokens ++ [t]) (settle t { r with pending := rest }) := by
  simp only [settle]
  rcases shape with same | closing
  · cases same
    exact ⟨chain, some, by simpa using balance, .lineEnd rfl (by simpa using going) (ahead nofun) rfl⟩
  have counts := closing.counts
  cases closing with
  | line => exact ⟨chain, some, by simpa using balance, .lineEnd rfl (by simpa using going) (ahead nofun) rfl⟩
  | eof base => exact ⟨chain, some, by simpa using balance, .textEnd rfl base rfl going⟩
  | dedent closing =>
    refine ⟨chain, some, ?_, .closing closing (by simpa using going) fun last => ahead (by simpa using last)⟩
    simp at balance counts ⊢
    omega

def weight (r : Reading) : Nat := 4 * r.cursor.rest.length + 2 * r.levels.length + r.pending.length

theorem weight_settle : weight (settle t r) ≤ weight r := by
  unfold settle
  split
  · have less := (r.cursor.passes_dropWhile (· ≠ '\n')).leads.length_le
    simp only [weight]
    omega
  · exact Nat.le_refl _

theorem Due.weight_lt {cursor levels rest} (due : Due r.levels levels (t :: rest)) (none : r.pending = [])
    (advanced : Advanced r ⟨cursor, levels, t :: rest⟩) (more : t ≠ .eof) :
    weight ⟨cursor, levels, rest⟩ < weight r := by
  have behind := advanced.leads.length_le
  have balance := due.balance
  simp only [weight, none, List.length_nil]
  rcases due.shape with same | closing
  · cases same
    have short := advanced.shorter nofun
    simp at balance behind short ⊢
    omega
  · have counts := closing.counts
    rw [List.length_cons] at counts
    by_cases last : .eof ∈ t :: rest
    · cases closing with
      | line => simp at last
      | eof => exact absurd rfl more
      | dedent closing =>
        simp at balance counts behind ⊢
        omega
    · have short := advanced.shorter last
      dsimp only at short
      omega

theorem Levelled.next (levelled : Levelled o tokens r) (going : .eof ∉ tokens) :
    Ends (fun e => r.pending = [] ∧ Misplaced r e)
      (fun t r' => Levelled o (tokens ++ [t]) (settle t r') ∧ (t ≠ .eof → weight (settle t r') < weight r))
      (next.run r) := by
  obtain ⟨chain, some, balance, stands⟩ := levelled
  rw [next_run]
  cases stands with
  | textEnd _ _ last => exact absurd (last ▸ List.mem_append_right _ List.mem_cons_self) going
  | closing closing _ ahead =>
    have counts := closing.counts
    cases queue : r.pending with
    | nil => simp [queue] at counts
    | cons t rest =>
      rw [queue] at closing balance ahead counts
      have popped : Levelled o (tokens ++ [t]) (settle t { r with pending := rest }) :=
        levelled_pop (.inr closing) chain some going (by omega) ahead
      refine ⟨popped, fun _ => ?_⟩
      refine Nat.lt_of_le_of_lt weight_settle ?_
      simp only [weight, queue, List.length_cons]
      omega
  | lineEnd none _ here skipped =>
    have ends := advance_ends r
    rw [none]
    dsimp only
    cases ran : advance r with
    | error e =>
      rw [ran] at ends
      obtain misplaced | ⟨inside, -⟩ := ends
      · exact ⟨rfl, misplaced⟩
      · rw [skipped, atLineEnd_feed] at inside
        cases inside
    | ok r' =>
      rw [ran] at ends
      have due := ends.due chain some
      have leads : o.Leads r.cursor := by
        obtain ⟨c, starts, passes⟩ := here.starts
        rw [skipped]
        exact starts.leads.trans (passes.leads.trans (Cursor.passes_dropWhile _ _).leads)
      obtain ⟨cursor, levels, pending⟩ := r'
      rw [none, List.count_nil] at balance
      cases pending with
      | nil =>
        obtain same | closing := due.shape
        · cases same
        · cases closing
      | cons t rest =>
        have popped : Levelled o (tokens ++ [t]) (settle t ⟨cursor, levels, rest⟩) :=
          levelled_pop (r := ⟨cursor, levels, t :: rest⟩) due.shape due.chain due.some going
            (by have := due.balance; dsimp only at this ⊢; omega) fun last => ends.line chain some last o leads
        refine ⟨popped, fun more => Nat.lt_of_le_of_lt weight_settle ?_⟩
        exact due.weight_lt none ends more

theorem taken_levelled {source base} (taken : Taken source base tokens r) :
    Levelled (.start source base) tokens r := by
  induction taken with
  | start first => exact ⟨.singleton _, nofun, rfl, .lineEnd rfl nofun (firstLine?_indented first) rfl⟩
  | token before going taken levelled => exact ((levelled.next going).of_ok taken).1

theorem Taken.before {source base} (taken : Taken source base tokens r) {part} (shorter : part <+: tokens) :
    ∃ r', Taken source base part r' := by
  induction taken with
  | start first =>
    obtain rfl := List.prefix_nil.1 shorter
    exact ⟨_, .start first⟩
  | token before going taken ih =>
    obtain rfl | shorter := List.prefix_concat_iff.1 shorter
    · exact ⟨_, .token before going taken⟩
    · exact ih shorter

theorem Taken.ends {source base} (taken : Taken source base tokens r) :
    ∃ tokens' r', Taken source base tokens' r' ∧ (.eof ∈ tokens' ∨ ∃ e, next.run r' = .error e) := by
  induction left : weight r using Nat.strongRecOn generalizing tokens r with
  | ind n ih =>
    by_cases going : .eof ∈ tokens
    · exact ⟨tokens, r, taken, .inl going⟩
    cases ran : next.run r with
    | error e => exact ⟨tokens, r, taken, .inr ⟨e, ran⟩⟩
    | ok result =>
      obtain ⟨t, r'⟩ := result
      have more := Taken.token taken going ran
      by_cases last : t = .eof
      · exact ⟨_, _, more, .inl (by simp [last])⟩
      · exact ih _ (left ▸ (((taken_levelled taken).next going).of_ok ran).2 last) more rfl

end

/-- Layout tokens bracket the lines of a text. At every moment the open levels are indented ever deeper, and no more
levels were closed than opened. Once the tokens of a line are taken, the line stands on the innermost level. When
the text has ended, as many levels were closed as opened, and its end is told once, last. Taking a token fails just
at a line whose indentation is no open level and goes not deeper than the innermost, and one of the two comes. -/
theorem taken_brackets (source : String) (base : Nat) :
    (∀ tokens r, Taken source base tokens r →
      r.levels.IsChain Deeper ∧ (∀ part, part <+: tokens → part.count .dedent ≤ part.count .indent) ∧
      (r.pending = [] → .eof ∉ tokens → ∃ line, Indented (.start source base) (r.levels.headD []) line ∧
        r.cursor = line.dropWhile (· ≠ '\n')) ∧
      (.eof ∈ tokens → tokens.count .dedent = tokens.count .indent ∧
        ∃ before, tokens = before ++ [.eof] ∧ .eof ∉ before) ∧
      (.eof ∉ tokens → ∀ e, next.run r = .error e ↔ r.pending = [] ∧ Misplaced r e)) ∧
    ∀ lead line, firstLine? (.start source base) = some (lead, line) → ∃ tokens r, Taken source base tokens r ∧
      (.eof ∈ tokens ∨ ∃ e, next.run r = .error e) := by
  refine ⟨fun tokens r taken => ?_, fun lead line first => ?_⟩
  · have levelled := taken_levelled taken
    refine ⟨levelled.chain, fun part shorter => ?_, fun none going => ?_, fun last => ?_,
      fun going e => ⟨fun failed => ?_, ?_⟩⟩
    · obtain ⟨r', taken'⟩ := taken.before shorter
      have levelled' := taken_levelled taken'
      have balance := levelled'.balance
      have open' := List.length_pos_iff.2 levelled'.some
      omega
    · cases levelled.stands with
      | lineEnd _ _ here skipped => exact ⟨_, here, skipped⟩
      | closing closing => exact absurd (none ▸ closing.counts.2) nofun
      | textEnd _ _ last => exact absurd (last ▸ List.mem_append_right _ List.mem_cons_self) going
    · cases levelled.stands with
      | lineEnd _ going | closing _ going => exact absurd last going
      | textEnd none base last sole =>
        have balance := levelled.balance
        rw [none, List.count_nil, base] at balance
        exact ⟨by omega, _, last, sole⟩
    · have ends := levelled.next going
      rw [failed] at ends
      exact ends
    · rintro ⟨none, misplaced⟩
      cases levelled.stands with
      | lineEnd _ _ _ skipped =>
        rw [next_run, none]
        dsimp only
        rw [advance_misplaced (skipped ▸ atLineEnd_feed _) misplaced]
        rfl
      | closing closing => exact absurd (none ▸ closing.counts.2) nofun
      | textEnd _ _ last => exact absurd (last ▸ List.mem_append_right _ List.mem_cons_self) going
  · exact (Taken.start first).ends

theorem taken_of_nested_line : ∃ r, Taken "a\n b\n" 0 [.indent, .dedent, .eof] r ∧
    [Layout.indent, .dedent, .eof].count .dedent = [Layout.indent, .dedent, .eof].count .indent := by
  have line : firstLine? (.start "a\n b\n" 0) = some ([], ⟨['a', '\n', ' ', 'b', '\n'], 0⟩) := by decide +kernel
  have first : Taken "a\n b\n" 0 [] ⟨⟨['\n', ' ', 'b', '\n'], 1⟩, [[]], []⟩ := .start line
  have second : Taken "a\n b\n" 0 [.indent] ⟨⟨['\n'], 4⟩, [[' '], []], []⟩ := .token first nofun rfl
  have third : Taken "a\n b\n" 0 [.indent, .dedent] ⟨⟨[], 5⟩, [[]], [.eof]⟩ := .token second (by decide) rfl
  have last : Taken "a\n b\n" 0 [.indent, .dedent, .eof] ⟨⟨[], 5⟩, [[]], []⟩ := .token third (by decide) rfl
  exact ⟨_, last, (((taken_brackets "a\n b\n" 0).1 _ _ last).2.2.2.1 (by decide)).1⟩

end ComponentCompiler.Template.Layout
