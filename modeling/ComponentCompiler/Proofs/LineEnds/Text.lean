import ComponentCompiler.Proofs.Brackets.Pass
import ComponentCompiler.Proofs.Text.Passage

/-!
# Line ends

`crlf` puts a carriage return before each line feed, and `lineFeeds` takes it away.
-/

namespace ComponentCompiler

namespace Text

def crlf : List Char → List Char
  | [] => []
  | c :: rest => if c = '\n' then '\r' :: '\n' :: crlf rest else c :: crlf rest

/-- The text with each carriage return and line feed read as a line feed. -/
def lineFeeds : List Char → List Char
  | [] => []
  | [c] => [c]
  | c :: d :: rest => if c = '\r' && d = '\n' then '\n' :: lineFeeds rest else c :: lineFeeds (d :: rest)

section

variable {c : Char} {text rest literal : List Char} {p : Char → Bool}

@[simp] theorem crlf_nil : crlf [] = [] := rfl

@[simp] theorem crlf_feed : crlf ('\n' :: rest) = '\r' :: '\n' :: crlf rest := rfl

theorem crlf_cons (other : c ≠ '\n') : crlf (c :: rest) = c :: crlf rest := by rw [crlf, if_neg other]

theorem crlf_append (text rest : List Char) : crlf (text ++ rest) = crlf text ++ crlf rest := by
  induction text with
  | nil => rfl
  | cons c text ih =>
    by_cases feed : c = '\n'
    · subst feed
      rw [List.cons_append, crlf_feed, crlf_feed, ih, List.cons_append, List.cons_append]
    · rw [List.cons_append, crlf_cons feed, crlf_cons feed, ih, List.cons_append]

theorem crlf_of_unbroken (unbroken : '\n' ∉ text) : crlf text = text := by
  induction text with
  | nil => rfl
  | cons c text ih =>
    rw [List.mem_cons, not_or] at unbroken
    rw [crlf_cons (Ne.symm unbroken.1), ih unbroken.2]

theorem mem_crlf : '\n' ∈ crlf text ↔ '\n' ∈ text := by
  induction text with
  | nil => rfl
  | cons c text ih =>
    by_cases feed : c = '\n'
    · simp [feed]
    · rw [crlf_cons feed, List.mem_cons, List.mem_cons, ih]

theorem length_le_crlf (text : List Char) : text.length ≤ (crlf text).length := by
  induction text with
  | nil => exact Nat.le_refl 0
  | cons c text ih =>
    by_cases feed : c = '\n'
    · subst feed
      simp only [crlf_feed, List.length_cons]
      omega
    · rw [crlf_cons feed, List.length_cons, List.length_cons]
      omega

theorem lineFeeds_cons (other : c ≠ '\r') : lineFeeds (c :: rest) = c :: lineFeeds rest := by
  cases rest <;> simp [lineFeeds, other]

theorem lineFeeds_plain (plain : '\r' ∉ text) : lineFeeds text = text := by
  induction text with
  | nil => rfl
  | cons c text ih =>
    rw [List.mem_cons, not_or] at plain
    rw [lineFeeds_cons (Ne.symm plain.1), ih plain.2]

theorem lineFeeds_crlf (plain : '\r' ∉ text) : lineFeeds (crlf text) = text := by
  induction text with
  | nil => rfl
  | cons c text ih =>
    rw [List.mem_cons, not_or] at plain
    by_cases feed : c = '\n'
    · subst feed
      simp [lineFeeds, ih plain.2]
    · rw [crlf_cons feed, lineFeeds_cons (Ne.symm plain.1), ih plain.2]

theorem dropWhile_crlf (same : p '\r' = p '\n') : (crlf text).dropWhile p = crlf (text.dropWhile p) := by
  induction text with
  | nil => rfl
  | cons c text ih =>
    by_cases feed : c = '\n'
    · subst feed
      cases passed : p '\n' with
      | true =>
        rw [passed] at same
        simp [same, passed, ih]
      | false =>
        rw [passed] at same
        simp [same, passed]
    · cases passed : p c with
      | true => rw [crlf_cons feed, List.dropWhile_cons_of_pos passed, List.dropWhile_cons_of_pos passed, ih]
      | false => simp [crlf_cons feed, passed]

theorem takeWhile_crlf (returns : p '\r' = false) (feeds : p '\n' = false) :
    (crlf text).takeWhile p = text.takeWhile p := by
  induction text with
  | nil => rfl
  | cons c text ih =>
    by_cases feed : c = '\n'
    · subst feed
      simp [returns, feeds]
    · rw [crlf_cons feed, List.takeWhile_cons, List.takeWhile_cons, ih]

theorem isPrefixOf_crlf (returns : '\r' ∉ literal) (feeds : '\n' ∉ literal) :
    literal.isPrefixOf (crlf text) = literal.isPrefixOf text := by
  induction literal generalizing text with
  | nil => rfl
  | cons x literal ih =>
    rw [List.mem_cons, not_or] at returns feeds
    cases text with
    | nil => rfl
    | cons c text =>
      by_cases feed : c = '\n'
      · subst feed
        have first : (x == '\r') = false ∧ (x == '\n') = false :=
          ⟨beq_false_of_ne (Ne.symm returns.1), beq_false_of_ne (Ne.symm feeds.1)⟩
        simp [List.isPrefixOf, first]
      · rw [crlf_cons feed, List.isPrefixOf, List.isPrefixOf, ih returns.2 feeds.2]

theorem crlf_split {w tail} (returns : c ≠ '\r') (feeds : c ≠ '\n') (split : crlf text = w ++ c :: tail) :
    ∃ u behind, text = u ++ c :: behind ∧ w = crlf u ∧ tail = crlf behind := by
  induction text generalizing w with
  | nil => simp at split
  | cons x text ih =>
    by_cases feed : x = '\n'
    · subst feed
      rw [crlf_feed] at split
      cases w with
      | nil => exact absurd (List.cons.inj split).1.symm returns
      | cons y w =>
        cases w with
        | nil => exact absurd (List.cons.inj (List.cons.inj split).2).1.symm feeds
        | cons z w =>
          obtain ⟨rfl, next⟩ := List.cons.inj split
          obtain ⟨rfl, later⟩ := List.cons.inj next
          obtain ⟨u, behind, rfl, rfl, rfl⟩ := ih later
          exact ⟨'\n' :: u, behind, rfl, rfl, rfl⟩
    · rw [crlf_cons feed] at split
      cases w with
      | nil =>
        obtain ⟨rfl, rfl⟩ := List.cons.inj split
        exact ⟨[], text, rfl, rfl, rfl⟩
      | cons y w =>
        obtain ⟨rfl, later⟩ := List.cons.inj split
        obtain ⟨u, behind, rfl, rfl, rfl⟩ := ih later
        exact ⟨x :: u, behind, rfl, (crlf_cons feed).symm, rfl⟩

theorem drop_crlf (feeds : '\n' ∉ literal) (here : literal.isPrefixOf text = true) :
    (crlf text).drop literal.length = crlf (text.drop literal.length) := by
  obtain ⟨behind, rfl⟩ := List.isPrefixOf_iff_prefix.1 here
  rw [crlf_append, crlf_of_unbroken feeds, List.drop_left, List.drop_left]

theorem trimEnd_crlf (text : List Char) : trimEnd (crlf text) = crlf (trimEnd text) := by
  have blanks : isBlank '\r' = true ∧ isBlank '\n' = true := by decide
  induction text with
  | nil => rfl
  | cons c text ih =>
    by_cases feed : c = '\n'
    · subst feed
      rw [crlf_feed, trimEnd, trimEnd, trimEnd, ih]
      cases kept : trimEnd text with
      | nil => simp [blanks]
      | cons d kept => by_cases other : d = '\n' <;> simp [crlf, other]
    · rw [crlf_cons feed, trimEnd, trimEnd, ih]
      cases kept : trimEnd text with
      | nil => cases blank : isBlank c <;> simp [crlf_cons feed]
      | cons d kept => by_cases other : d = '\n' <;> simp [crlf, other, feed]

theorem trim_crlf (text : List Char) : trim (crlf text) = crlf (trim text) := by
  have same : isBlank '\r' = isBlank '\n' := by decide
  unfold trim trimStart
  rw [dropWhile_crlf same, trimEnd_crlf]

theorem isIdentifierList_of_feed (feed : '\n' ∈ text) : isIdentifierList text = false := by
  have outside : isIdentifierStart '\n' = false ∧ isIdentifierPart '\n' = false := by decide
  cases text with
  | nil => rfl
  | cons c text =>
    rw [isIdentifierList, Bool.and_eq_false_iff, List.all_eq_false]
    rcases List.mem_cons.1 feed with rfl | later
    · exact .inl outside.1
    · exact .inr ⟨'\n', later, by rw [outside.2]; exact Bool.false_ne_true⟩

theorem isIdentifierList_crlf (text : List Char) : isIdentifierList (crlf text) = isIdentifierList text := by
  by_cases feed : '\n' ∈ text
  · rw [isIdentifierList_of_feed feed, isIdentifierList_of_feed (mem_crlf.2 feed)]
  · rw [crlf_of_unbroken feed]

end

namespace Cursor

/-- The cursors stand at the same place of a text in its two forms. -/
structure Wider (c c' : Cursor) : Prop where
  rest : c'.rest = crlf c.rest
  plain : '\r' ∉ c.rest

section

variable {c c' d d' : Cursor} {x : Char} {p : Char → Bool} {literal : List Char}

theorem Wider.suffix {text} (wider : c.Wider c') (split : c.rest = text ++ d.rest) (rest : d'.rest = crlf d.rest) :
    d.Wider d' :=
  ⟨rest, fun mem => wider.plain (split ▸ List.mem_append_right _ mem)⟩

theorem Wider.behind (wider : c.Wider c') (leads : c.Leads d) (rest : d'.rest = crlf d.rest) : d.Wider d' := by
  obtain ⟨text, passes⟩ := leads
  exact wider.suffix passes.rest rest

theorem Wider.peek_cases (wider : c.Wider c') : c.peek? = none ∧ c'.peek? = none ∨
    c.peek? = some '\n' ∧ c'.peek? = some '\r' ∨ ∃ x, x ≠ '\n' ∧ c.peek? = some x ∧ c'.peek? = some x := by
  unfold peek?
  rw [wider.rest]
  cases c.rest with
  | nil => exact .inl ⟨rfl, rfl⟩
  | cons y rest =>
    by_cases feed : y = '\n'
    · subst feed
      exact .inr (.inl ⟨rfl, rfl⟩)
    · rw [crlf_cons feed]
      exact .inr (.inr ⟨y, feed, rfl, rfl⟩)

theorem Wider.peek_isSome (wider : c.Wider c') : c'.peek?.isSome = c.peek?.isSome := by
  obtain ⟨none, none'⟩ | ⟨feed, feed'⟩ | ⟨x, -, first, first'⟩ := wider.peek_cases
  · rw [none, none']
  · rw [feed, feed']
    rfl
  · rw [first, first']

theorem Wider.peek_of_going (wider : c.Wider c') (going : c.atLineEnd = false) :
    ∃ x, x ≠ '\n' ∧ c.peek? = some x ∧ c'.peek? = some x := by
  obtain ⟨none, -⟩ | ⟨feed, -⟩ | next := wider.peek_cases
  · rw [Cursor.atLineEnd, List.head?_eq_none_iff.1 none] at going
    cases going
  · obtain ⟨rest, split⟩ := List.head?_eq_some_iff.1 feed
    rw [Cursor.atLineEnd, split] at going
    cases going
  · exact next

theorem Wider.next (wider : c.Wider c') (first : c.peek? = some x) (other : x ≠ '\n') : c.next.Wider c'.next := by
  refine wider.behind (leads_next c) ?_
  obtain ⟨rest, pos⟩ := c
  obtain ⟨rest', pos'⟩ := c'
  obtain ⟨rest, rfl⟩ := List.head?_eq_some_iff.1 first
  have shown : rest' = x :: crlf rest := (crlf_cons other).symm ▸ wider.rest
  subst shown
  rfl

theorem Wider.dropWhile (wider : c.Wider c') (same : p '\r' = p '\n') : (c.dropWhile p).Wider (c'.dropWhile p) := by
  refine wider.behind (passes_dropWhile c p).leads ?_
  change c'.rest.dropWhile p = _
  rw [wider.rest, dropWhile_crlf same]
  rfl

theorem Wider.skip (wider : c.Wider c') (feeds : '\n' ∉ literal) (here : literal.isPrefixOf c.rest = true) :
    (c.skip literal.length).Wider (c'.skip literal.length) := by
  refine wider.behind (passes_skip c literal.length).leads ?_
  change c'.rest.drop literal.length = _
  rw [wider.rest, drop_crlf feeds here]
  rfl

theorem Wider.atLineEnd (wider : c.Wider c') : c'.atLineEnd = c.atLineEnd := by
  obtain ⟨rest, pos⟩ := c
  obtain ⟨rest', pos'⟩ := c'
  obtain ⟨rfl, plain⟩ := wider
  cases rest with
  | nil => rfl
  | cons x rest =>
    rw [List.mem_cons, not_or] at plain
    by_cases feed : x = '\n'
    · subst feed
      rfl
    · have ends (rest : List Char) (pos : Nat) : Cursor.atLineEnd ⟨x :: rest, pos⟩ = false := by
        unfold Cursor.atLineEnd
        grind
      dsimp only
      rw [crlf_cons feed, ends, ends]

theorem rest_skipLine (c : Cursor) : c.skipLine.rest = (c.rest.dropWhile (· ≠ '\n')).tail := by
  unfold Cursor.skipLine Cursor.next Cursor.dropWhile
  dsimp only
  split
  · rename_i none
    rw [none]
    rfl
  · rename_i some
    rw [some]
    rfl

theorem Wider.skipLine (wider : c.Wider c') : c.skipLine.Wider c'.skipLine := by
  refine wider.behind (leads_skipLine c) ?_
  rw [rest_skipLine, rest_skipLine, wider.rest]
  induction c.rest with
  | nil => rfl
  | cons x rest ih =>
    by_cases feed : x = '\n'
    · subst feed
      rfl
    · have passed : decide (x ≠ '\n') = true := decide_eq_true feed
      simp only [crlf_cons feed, List.dropWhile_cons, passed, if_true]
      exact ih

end

end Cursor

end Text

open Text

namespace Template.Balanced

def isString : List Frame → Bool
  | .quoted _ _ :: _ => true
  | _ => false

/-- Whether a string in the code runs on behind a backslash at the end of a line. The code starts inside the open
`frames`. -/
def breaks (frames : List Frame) (text : List Char) : Bool :=
  match text with
  | [] | [_] => false
  | c :: d :: rest =>
    match step bodyGoal frames 0 c (d :: rest) with
    | .one frames' => breaks frames' (d :: rest)
    | .two frames' => (isString frames && d = '\n') || breaks frames' rest
    | _ => false

section

variable {frames frames' after : List Frame} {c d : Char} {rest text : List Char}

theorem breaks_one (decided : step bodyGoal frames 0 c (d :: rest) = .one frames') :
    breaks frames (c :: d :: rest) = breaks frames' (d :: rest) := by
  rw [breaks, decided]

theorem breaks_two (decided : step bodyGoal frames 0 c (d :: rest) = .two frames') :
    breaks frames (c :: d :: rest) = (isString frames && d = '\n' || breaks frames' rest) := by
  rw [breaks, decided]

theorem pass_stuck (more : rest ≠ []) (stuck : (step bodyGoal frames 0 c rest).frames? = none) :
    pass frames (c :: rest) = none := by
  cases rest with
  | nil => exact absurd rfl more
  | cons d rest =>
    rw [pass]
    split
    · rename_i decided
      rw [decided] at stuck
      cases stuck
    · rename_i decided
      rw [decided] at stuck
      cases stuck
    · rfl

theorem step_return (reach : Reachable frames) (rest : List Char) : step bodyGoal frames 0 '\r' rest = .one frames := by
  have plain : '\r' ∉ marks := by decide
  cases frames with
  | nil => simp [step, bodyGoal, List.isPrefixOf, codeStep_plain plain]
  | cons f outer =>
    cases f with
    | bracket close => exact codeStep_plain plain
    | template => simp [step, templateStep]
    | quoted quote start =>
      have inside : '\r' ≠ quote := ne_of_blank (by decide) (reach.quotes List.mem_cons_self)
      simp [step, quotedStep, inside]
    | lineComment => simp [step]
    | blockComment start => simp [step]

theorem ahead_crlf (text : List Char) : Ahead (crlf text).head? text.head? := by
  cases text with
  | nil => exact .refl _
  | cons c text =>
    by_cases feed : c = '\n'
    · subst feed
      exact ahead_inert (by decide) (by decide)
    · rw [crlf_cons feed]
      exact .refl _

theorem crlf_ne_nil : crlf (c :: rest) ≠ [] := by
  by_cases feed : c = '\n' <;> simp [crlf, feed]

theorem step_two_feed (decided : step bodyGoal frames 0 c ('\n' :: rest) = .two frames') :
    frames' = frames ∧ ∃ f outer, frames = f :: outer ∧ (f = .template ∨ ∃ quote start, f = .quoted quote start) := by
  have turn : Turn 0 frames c (some '\n') (.two frames') := step_turn decided rfl
  cases turn with
  | code _ turn => cases turn
  | escape literal => exact ⟨rfl, _, _, rfl, literal⟩

theorem pass_template_feed {outer} : pass (.template :: outer) ('\n' :: rest) = pass (.template :: outer) rest := by
  have goes (rest : List Char) : step bodyGoal (.template :: outer) 0 '\n' rest = .one (.template :: outer) := by
    simp [step, templateStep]
  cases rest with
  | nil => exact pass_last (goes _)
  | cons d rest => exact pass_one (goes _)

theorem pass_string_feed {quote start outer} : pass (.quoted quote start :: outer) ('\n' :: rest) = none := by
  have fails (rest : List Char) : (step bodyGoal (.quoted quote start :: outer) 0 '\n' rest).frames? = none := by
    simp [step, quotedStep, Step.frames?]
  cases rest with
  | nil => simp [pass, step, quotedStep]
  | cons d rest => exact pass_stuck (List.cons_ne_nil _ _) (fails _)

/-- Code is passed in both forms, unless a string runs on behind a backslash at the end of a line. -/
theorem pass_crlf {frames text} (reach : Reachable frames) :
    pass frames (crlf text) = some after ↔ pass frames text = some after ∧ breaks frames text = false := by
  match text with
  | [] => simp [breaks]
  | [c] =>
    by_cases feed : c = '\n'
    · subst feed
      rw [crlf_feed, crlf_nil, pass_one (step_return reach _)]
      simp [breaks]
    · rw [crlf_cons feed, crlf_nil]
      simp [breaks]
  | c :: d :: rest =>
    have first : pass frames (crlf (c :: d :: rest)) = pass frames (c :: crlf (d :: rest)) := by
      by_cases feed : c = '\n'
      · subst feed
        rw [crlf_feed, pass_one (step_return reach _)]
      · rw [crlf_cons feed]
    -- A step looks one character ahead, and a carriage return there is as good as a line feed.
    have same : step bodyGoal frames 0 c (crlf (d :: rest)) = step bodyGoal frames 0 c (d :: rest) :=
      step_ahead (ahead_crlf _)
    have stuck (none : (step bodyGoal frames 0 c (d :: rest)).frames? = none) :
        pass frames (crlf (c :: d :: rest)) = some after ↔
          pass frames (c :: d :: rest) = some after ∧ breaks frames (c :: d :: rest) = false := by
      rw [first, pass_stuck crlf_ne_nil (same ▸ none), pass_stuck (List.cons_ne_nil _ _) none]
      simp
    cases decided : step bodyGoal frames 0 c (d :: rest) with
    | stop | fail error => exact stuck (by rw [decided]; rfl)
    | one next =>
      have reach' : Reachable next := step_reachable reach decided rfl
      rw [first, pass_cons crlf_ne_nil (same.trans decided), pass_one decided, breaks_one decided]
      exact pass_crlf reach'
    | two next =>
      have reach' : Reachable next := step_reachable reach decided rfl
      rw [first, pass_two decided, breaks_two decided]
      by_cases feed : d = '\n'
      · subst feed
        rw [crlf_feed] at same ⊢
        rw [pass_two (same.trans decided)]
        -- The escape takes the carriage return, and the line feed comes next.
        obtain ⟨rfl, f, outer, rfl, rfl | ⟨quote, start, rfl⟩⟩ := step_two_feed decided
        · rw [pass_template_feed, pass_crlf reach']
          simp [isString]
        · rw [pass_string_feed]
          simp [isString]
      · rw [crlf_cons feed] at same ⊢
        rw [pass_two (same.trans decided), pass_crlf reach']
        simp [feed]
termination_by text.length

theorem ne_of_two {goal pos} (blank : isBlank c = true) (rest : List Char) :
    step goal frames pos c rest ≠ .two frames' := by
  intro decided
  have ink : ['/', '\\', '$', '*'].all (!isBlank ·) = true := by decide
  simpa [blank] using List.all_eq_true.1 ink c (first_of_two decided)

theorem breaks_blank {frames b} (blank : allBlank b = true) : breaks frames b = false := by
  match b with
  | [] | [_] => rfl
  | c :: d :: rest =>
    obtain ⟨first, others⟩ : isBlank c = true ∧ allBlank (d :: rest) = true := by simpa [allBlank] using blank
    cases decided : step bodyGoal frames 0 c (d :: rest) with
    | one next => rw [breaks_one decided, breaks_blank others]
    | two next => exact absurd decided (ne_of_two first _)
    | stop | fail => rw [breaks, decided]

theorem breaks_append_blank {frames text b} (passed : pass frames text = some after) (blank : allBlank b = true) :
    breaks frames (text ++ b) = breaks frames text := by
  replace passed := walked_of_pass passed
  induction passed with
  | nil => rw [List.nil_append, breaks_blank blank, breaks]
  | @last frames c decided =>
    cases b with
    | nil => rfl
    | cons d b =>
      have inert : Inert d := by
        have first : isBlank d = true := by simp_all [allBlank]
        exact ⟨ne_of_blank first (by decide), ne_of_blank first (by decide), ne_of_blank first (by decide)⟩
      have same : step bodyGoal frames 0 c (d :: b) = step bodyGoal frames 0 c [' '] :=
        step_ahead (ahead_inert inert (by decide))
      have first : breaks frames (c :: d :: b) = breaks after (d :: b) := breaks_one (same.trans decided)
      rw [List.singleton_append, first, breaks_blank blank, breaks]
  | @one frames next c e text decided _ ih =>
    have first : breaks frames (c :: e :: (text ++ b)) = breaks next (e :: (text ++ b)) :=
      breaks_one (step_append.trans decided)
    rw [List.cons_append, List.cons_append, first, breaks_one decided]
    exact ih
  | two decided _ ih =>
    rw [List.cons_append, List.cons_append, breaks_two (step_append.trans decided), breaks_two decided, ih]

theorem breaks_blank_append {a text} (blank : allBlank a = true) : breaks [] (a ++ text) = breaks [] text := by
  induction a with
  | nil => rfl
  | cons c a ih =>
    obtain ⟨first, others⟩ : isBlank c = true ∧ allBlank a = true := by simpa [allBlank] using blank
    rw [← ih others, List.cons_append]
    cases a ++ text with
    | nil => rfl
    | cons d rest =>
      have brace : ('\x7d' == c) = false := beq_false_of_ne (ne_of_blank first (by decide)).symm
      refine breaks_one ?_
      simp [step, bodyGoal, List.isPrefixOf, brace, codeStep_plain (not_mark_of_blank first)]

theorem scan_iff_pass {goal x w tail pos} (closing : isClosing x = true) (close : goal.close = [x]) :
    (∃ p, scan goal [] pos (w ++ x :: tail) = .ok ⟨x :: tail, p⟩) ↔ pass [] w = some [] := by
  constructor
  · rintro ⟨p, found⟩
    rcases pass_of_scan (b := []) closing rfl .nil (.refl []) found rfl with closed | ⟨-, feed⟩
    · exact closed
    · cases feed
  · intro closed
    exact scan_of_pass (b := []) closing close rfl rfl (.inl closed) pos

theorem breaks_trim {w} (passed : pass [] w = some []) : breaks [] (trim w) = breaks [] w := by
  obtain ⟨a, b, split, before, behind⟩ := exists_trim w
  have brace : isClosing '\x7d' = true := rfl
  have found : ∃ p, scan bodyGoal [] 0 (w ++ ['\x7d']) = .ok ⟨['\x7d'], p⟩ := (scan_iff_pass brace rfl).2 passed
  obtain ⟨p, found⟩ := found
  rw [split, List.append_assoc, List.append_assoc, scan_blanks rfl brace before] at found
  have inner : ∃ after, pass [] (trim w) = some after := by
    rcases pass_of_scan brace behind .nil (.refl []) found rfl with closed | ⟨comment, -⟩
    · exact ⟨_, closed⟩
    · exact ⟨_, comment⟩
  obtain ⟨after, inner⟩ := inner
  calc breaks [] (trim w) = breaks [] (trim w ++ b) := (breaks_append_blank inner behind).symm
    _ = breaks [] (a ++ (trim w ++ b)) := (breaks_blank_append before).symm
    _ = breaks [] w := by rw [← split]

theorem breaks_of_unbroken {frames text} (unbroken : '\n' ∉ text) : breaks frames text = false := by
  match text with
  | [] | [_] => rfl
  | c :: d :: rest =>
    simp only [List.mem_cons, not_or] at unbroken
    obtain ⟨-, second, others⟩ := unbroken
    have rest_unbroken : '\n' ∉ d :: rest := by simp [second, others]
    cases decided : step bodyGoal frames 0 c (d :: rest) with
    | one next => rw [breaks_one decided, breaks_of_unbroken rest_unbroken]
    | two next => rw [breaks_two decided, breaks_of_unbroken others]; simp [Ne.symm second]
    | stop | fail => rw [breaks, decided]

section

variable {goal : Goal} {x : Char} {a a' : Cursor} {r : List Char} (closing : isClosing x = true)
  (close : goal.close = [x])

include closing close

theorem find_iff : (∃ p, find goal a = .ok ⟨r, p⟩) ↔
    ∃ w tail, r = x :: tail ∧ a.rest = w ++ x :: tail ∧ pass [] w = some [] := by
  constructor
  · rintro ⟨p, found⟩
    obtain ⟨w, split, here, -⟩ := scan_suffix found
    rw [close] at here
    obtain ⟨tail, rfl⟩ := List.isPrefixOf_iff_prefix.1 here
    have found : scan goal [] a.pos (w ++ x :: tail) = .ok ⟨x :: tail, p⟩ := split ▸ found
    exact ⟨w, tail, rfl, split, (scan_iff_pass closing close).1 ⟨p, found⟩⟩
  · rintro ⟨w, tail, rfl, split, passed⟩
    unfold find
    rw [split]
    exact (scan_iff_pass closing close).2 passed

theorem find_crlf_iff (wider : a.Wider a') : (∃ p, find goal a' = .ok ⟨r, p⟩) ↔
    ∃ w tail, r = x :: crlf tail ∧ a.rest = w ++ x :: tail ∧ pass [] w = some [] ∧ breaks [] w = false := by
  have inert : x ≠ '\r' ∧ x ≠ '\n' := by
    rcases isClosing_cases closing with (rfl | rfl) | rfl <;> decide
  rw [find_iff closing close]
  constructor
  · rintro ⟨w, tail, rfl, split, passed⟩
    rw [wider.rest] at split
    obtain ⟨u, behind, before, rfl, rfl⟩ := crlf_split inert.1 inert.2 split
    exact ⟨u, behind, rfl, before, (pass_crlf .nil).1 passed⟩
  · rintro ⟨w, tail, rfl, split, passed⟩
    refine ⟨crlf w, crlf tail, rfl, ?_, (pass_crlf .nil).2 passed⟩
    rw [wider.rest, split, crlf_append, crlf_cons inert.2]

end

/-- How searches for the end of code before `x` may end, the first with line feeds alone: at the same place, at the end
of broken code and with a fault, or both with a fault. -/
inductive FoundBoth (x : Char) (a : Cursor) : Except ParseError Cursor → Except ParseError Cursor → Prop where
  | both {w tail : List Char} {p p' : Nat} (split : a.rest = w ++ x :: tail) (passed : pass [] w = some [])
      (unbroken : breaks [] w = false) : FoundBoth x a (.ok ⟨x :: tail, p⟩) (.ok ⟨x :: crlf tail, p'⟩)
  | spoilt {w tail : List Char} {p : Nat} {e : ParseError} (split : a.rest = w ++ x :: tail)
      (passed : pass [] w = some []) (broken : breaks [] w = true) : FoundBoth x a (.ok ⟨x :: tail, p⟩) (.error e)
  | neither {e e' : ParseError} : FoundBoth x a (.error e) (.error e')

theorem find_both {goal goal' x a a'} (closing : isClosing x = true) (close : goal.close = [x])
    (close' : goal'.close = [x]) (wider : a.Wider a') : FoundBoth x a (find goal a) (find goal' a') := by
  cases found' : find goal' a' with
  | error e' =>
    cases found : find goal a with
    | error e => exact .neither
    | ok stop =>
      obtain ⟨r, p⟩ := stop
      obtain ⟨w, tail, rfl, split, passed⟩ := (find_iff closing close).1 ⟨p, found⟩
      refine .spoilt split passed ?_
      cases unbroken : breaks [] w with
      | true => rfl
      | false =>
        obtain ⟨p', impossible⟩ := (find_crlf_iff closing close' wider).2 ⟨w, tail, rfl, split, passed, unbroken⟩
        rw [impossible] at found'
        cases found'
  | ok stop' =>
    obtain ⟨r', p'⟩ := stop'
    obtain ⟨w, tail, rfl, split, passed, unbroken⟩ := (find_crlf_iff closing close' wider).1 ⟨p', found'⟩
    obtain ⟨p, found⟩ := (find_iff closing close).2 ⟨w, tail, rfl, split, passed⟩
    rw [found]
    exact .both split passed unbroken

end

end Template.Balanced

end ComponentCompiler
