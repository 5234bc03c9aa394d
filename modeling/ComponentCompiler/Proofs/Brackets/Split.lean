import ComponentCompiler.Proofs.Argument.Pieces
import ComponentCompiler.Proofs.Outline.Positions

/-!
# Splitting and scanning

An argument is cut out of a line by a scan and split at commas by a simpler walk. Main statement: `split_scanned`.
-/

namespace ComponentCompiler.Template.Argument

open Text Template.Balanced

def commaGoal : Goal := ⟨[','], .parenthesizedCode, ⟨0, 0⟩⟩

/-- The pieces of a text between the commas at which a scan stops when it is begun anew behind each of them. -/
inductive Scanned : Nat → List Char → List Piece → Prop where
  | last {pos : Nat} {text : List Char} {error : ParseError} (none : scan commaGoal [] pos text = .error error) :
      Scanned pos text [⟨pos, text⟩]
  | comma {pos : Nat} {text : List Char} {stop : Cursor} {pieces : List Piece}
      (found : scan commaGoal [] pos text = .ok stop) (later : Scanned stop.next.pos stop.next.rest pieces) :
      Scanned pos text (⟨pos, (Cursor.mk text pos).upTo stop⟩ :: pieces)

/-- Whether the walk takes `c` for something else than a scan inside the open `frames` does: in a comment for a mark of
code, or in code inside of a template literal for the end of that. -/
def misread (frames : List Frame) (c : Char) : Bool :=
  if .template ∈ frames.tail then c = '`'
  else
    match frames with
    | .lineComment :: outer | .blockComment _ :: outer =>
      Nesting.isQuote c || Nesting.isOpening c || Nesting.isClosing c || (c = ',' && outer.isEmpty)
    | _ => false

/-- Whether nothing is misread in a text that starts inside the open `frames`. -/
def isLegible (frames : List Frame) (text : List Char) : Bool :=
  match text with
  | [] => true
  | [c] => !misread frames c
  | c :: d :: rest =>
    match step bodyGoal frames 0 c (d :: rest) with
    | .one frames' => !misread frames c && isLegible frames' (d :: rest)
    | .two frames' => !misread frames c && !misread frames d && isLegible frames' rest
    | _ => false

def Brackets (frames : List Frame) : Prop := ∀ f ∈ frames, ∃ close, f = .bracket close

/-- Where the walk stands when a scan is inside `frames`. In code inside of a template literal it is still between the
backticks, and may have seen a backslash there. -/
inductive Mirrors : List Frame → Nesting → Prop where
  | code {frames} (brackets : Brackets frames) : Mirrors frames ⟨frames.length, none, false⟩
  | quoted {quote start frames} (brackets : Brackets frames) :
      Mirrors (.quoted quote start :: frames) ⟨frames.length, some quote, false⟩
  | lineComment {frames} (brackets : Brackets frames) : Mirrors (.lineComment :: frames) ⟨frames.length, none, false⟩
  | blockComment {start frames} (brackets : Brackets frames) :
      Mirrors (.blockComment start :: frames) ⟨frames.length, none, false⟩
  | template {frames} (brackets : Brackets frames) : Mirrors (.template :: frames) ⟨frames.length, some '`', false⟩
  | part {inner frames escaped} (brackets : Brackets frames) :
      Mirrors (inner ++ .bracket '\x7d' :: .template :: frames) ⟨frames.length, some '`', escaped⟩

section

variable {goal : Goal} {frames frames' : List Frame} {pos : Nat} {c d : Char} {rest : List Char} {n : Nesting}

theorem Brackets.not_mem (brackets : Brackets frames) : Frame.template ∉ frames := by
  intro mem
  obtain ⟨close, same⟩ := brackets _ mem
  cases same

theorem Brackets.cons {close} (brackets : Brackets frames) : Brackets (.bracket close :: frames) :=
  List.forall_mem_cons.2 ⟨⟨close, rfl⟩, brackets⟩

theorem Brackets.isCode (brackets : Brackets frames) : isCode frames = true := by
  cases frames with
  | nil => rfl
  | cons f outer =>
    obtain ⟨close, rfl⟩ := brackets f List.mem_cons_self
    rfl

theorem misread_part {inner} : misread (inner ++ .bracket '\x7d' :: .template :: frames) c = decide (c = '`') := by
  have inside : Frame.template ∈ (inner ++ Frame.bracket '\x7d' :: .template :: frames).tail := by
    cases inner <;> simp
  unfold misread
  rw [if_pos inside]

theorem misread_comment {f} (comment : f = .lineComment ∨ ∃ start, f = .blockComment start)
    (brackets : Brackets frames) : misread (f :: frames) c =
      (Nesting.isQuote c || Nesting.isOpening c || Nesting.isClosing c || (decide (c = ',') && frames.isEmpty)) := by
  have outside : Frame.template ∉ (f :: frames).tail := brackets.not_mem
  unfold misread
  rw [if_neg outside]
  obtain rfl | ⟨start, rfl⟩ := comment <;> rfl

theorem step_plain {depth} (quote : Nesting.isQuote c = false) (opening : Nesting.isOpening c = false)
    (closing : Nesting.isClosing c = false) : Nesting.step ⟨depth, none, false⟩ c = ⟨depth, none, false⟩ := by
  simp [Nesting.step, quote, opening, closing]

theorem step_inside {depth escaped} (tick : c ≠ '`') :
    ∃ escaped', Nesting.step ⟨depth, some '`', escaped⟩ c = ⟨depth, some '`', escaped'⟩ ∧
      (c ≠ '\\' → escaped' = false) := by
  unfold Nesting.step
  cases escaped with
  | true => exact ⟨false, rfl, fun _ => rfl⟩
  | false =>
    by_cases back : c = '\\'
    · exact ⟨true, by simp [back], fun other => absurd back other⟩
    · exact ⟨false, by simp [back, tick], fun _ => rfl⟩

theorem turn_stack {f outer s next} (turn : Turn pos (f :: outer) c next s) (moved : s.frames? = some frames') :
    (∃ inner, frames' = inner ++ f :: outer) ∨ frames' = outer ∧ ∀ close, f = .bracket close → c = close := by
  cases turn with
  | code _ turn =>
    cases turn with
    | close _ top =>
      cases moved
      cases top
      exact .inr ⟨rfl, fun _ same => Frame.bracket.inj same⟩
    | plain =>
      cases moved
      exact .inl ⟨[], rfl⟩
    | _ =>
      cases moved
      exact .inl ⟨[_], rfl⟩
  | hole =>
    cases moved
    exact .inl ⟨[_], rfl⟩
  | leave | unquote | feed | uncomment =>
    cases moved
    exact .inr ⟨rfl, nofun⟩
  | escape | literal | quoted | line | block =>
    cases moved
    exact .inl ⟨[], rfl⟩

theorem turn_part {inner s next} (turn : Turn pos (inner ++ .bracket '\x7d' :: .template :: frames) c next s)
    (moved : s.frames? = some frames') : (∃ inner', frames' = inner' ++ .bracket '\x7d' :: .template :: frames) ∨
      c = '\x7d' ∧ frames' = .template :: frames := by
  cases inner with
  | nil => exact (turn_stack turn moved).imp_right fun closed => ⟨closed.2 _ rfl, closed.1⟩
  | cons f inner =>
    rcases turn_stack turn moved with ⟨more, rfl⟩ | ⟨rfl, -⟩
    · exact .inl ⟨more ++ f :: inner, by simp⟩
    · exact .inl ⟨inner, rfl⟩

theorem step_unmarked {depth} (other : c ≠ '/' → c ∉ marks) :
    Nesting.step ⟨depth, none, false⟩ c = ⟨depth, none, false⟩ := by
  by_cases slash : c = '/'
  · subst slash
    rfl
  · have unmarked := other slash
    simp only [marks, List.mem_cons, List.not_mem_nil, or_false, not_or] at unmarked
    exact step_plain (by simp [Nesting.isQuote, unmarked]) (by simp [Nesting.isOpening, unmarked])
      (by simp [Nesting.isClosing, unmarked])

theorem mirrors_code_one {next} (brackets : Brackets frames) (turn : CodeTurn pos frames c next (.one frames')) :
    Mirrors frames' (Nesting.step ⟨frames.length, none, false⟩ c) := by
  cases turn with
  | quote quotes => rcases quotes with rfl | rfl <;> exact .quoted brackets
  | tick => exact .template brackets
  | close closing top =>
    subst top
    have below : Mirrors frames' ⟨frames'.length, none, false⟩ :=
      .code fun f mem => brackets f (List.mem_cons_of_mem _ mem)
    rcases isClosing_cases closing with (rfl | rfl) | rfl <;> exact below
  | @opening _ close _ opens =>
    have inside : Mirrors (.bracket close :: frames) ⟨frames.length + 1, none, false⟩ := .code brackets.cons
    unfold closing? at opens
    split at opens
    · subst c
      exact inside
    split at opens
    · subst c
      exact inside
    split at opens
    · subst c
      exact inside
    · cases opens
  | plain other _ =>
    rw [step_unmarked other]
    exact .code brackets

theorem step_comment {f} (comment : f = .lineComment ∨ ∃ start, f = .blockComment start)
    (brackets : Brackets frames) (clear : misread (f :: frames) c = false) :
    Nesting.step ⟨frames.length, none, false⟩ c = ⟨frames.length, none, false⟩ := by
  rw [misread_comment comment brackets] at clear
  simp only [Bool.or_eq_false_iff] at clear
  exact step_plain clear.1.1.1 clear.1.1.2 clear.1.2

theorem Mirrors.one (mirrors : Mirrors frames n) (clear : misread frames c = false)
    (decided : step goal frames pos c (d :: rest) = .one frames') : Mirrors frames' (n.step c) := by
  have turn : Turn pos frames c (some d) (.one frames') := step_turn decided rfl
  cases mirrors with
  | code brackets => exact mirrors_code_one brackets (turn.code_of brackets.isCode)
  | @quoted quote start frames brackets =>
    cases turn with
    | code code => cases code
    | unquote escape =>
      have back : c ≠ '\\' := fun same => nomatch escape same
      simpa [Nesting.step, back] using Mirrors.code brackets
    | quoted escape _ inside =>
      have back : c ≠ '\\' := fun same => nomatch escape same
      have quoted : Mirrors (.quoted quote start :: frames) ⟨frames.length, some quote, false⟩ := .quoted brackets
      simpa [Nesting.step, back, inside] using quoted
  | @template frames brackets =>
    cases turn with
    | code code => cases code
    | leave => exact .code brackets
    | literal escape tick _ =>
      have back : c ≠ '\\' := fun same => nomatch escape same
      have template : Mirrors (.template :: frames) ⟨frames.length, some '`', false⟩ := .template brackets
      simpa [Nesting.step, back, tick] using template
  | lineComment brackets =>
    rw [step_comment (.inl rfl) brackets clear]
    cases turn with
    | code code => cases code
    | feed => exact .code brackets
    | line => exact .lineComment brackets
  | @blockComment start outer brackets =>
    rw [step_comment (.inr ⟨start, rfl⟩) brackets clear]
    cases turn with
    | code code => cases code
    | block => exact .blockComment brackets
  | part brackets =>
    -- The walk takes all of it for the literal, so it only matters whether a backtick or a brace comes.
    rw [misread_part, decide_eq_false_iff_not] at clear
    obtain ⟨escaped, next, synced⟩ := step_inside clear
    rw [next]
    obtain ⟨inner', rfl⟩ | ⟨rfl, rfl⟩ := turn_part turn rfl
    · exact .part brackets
    · rw [synced (by decide)]
      exact .template brackets

theorem Mirrors.two (mirrors : Mirrors frames n) (clear : misread frames c = false) (clear' : misread frames d = false)
    (decided : step goal frames pos c (d :: rest) = .two frames') :
    Mirrors frames' ((n.step c).step d) ∧ ((n.step c).quote = none → d ≠ ',') := by
  have turn : Turn pos frames c (some d) (.two frames') := step_turn decided rfl
  cases mirrors with
  | code brackets =>
    cases turn.code_of brackets.isCode with
    | lineComment => exact ⟨.lineComment brackets, fun _ => by decide⟩
    | blockComment => exact ⟨.blockComment brackets, fun _ => by decide⟩
  | quoted brackets =>
    cases turn with
    | code code => cases code
    | escape => exact ⟨.quoted brackets, nofun⟩
  | @template frames brackets =>
    cases turn with
    | code code => cases code
    | escape => exact ⟨.template brackets, nofun⟩
    | hole =>
      have part : Mirrors ([] ++ .bracket '\x7d' :: .template :: frames) ⟨frames.length, some '`', false⟩ :=
        .part brackets
      exact ⟨part, nofun⟩
  | lineComment brackets =>
    cases turn with
    | code code => cases code
    | escape literal => simp at literal
  | blockComment brackets =>
    cases turn with
    | code code => cases code
    | escape literal => simp at literal
    | uncomment => exact ⟨.code brackets, fun _ => by decide⟩
  | part brackets =>
    rw [misread_part, decide_eq_false_iff_not] at clear clear'
    obtain ⟨escaped, next, -⟩ := step_inside clear
    obtain ⟨escaped', next', -⟩ := step_inside clear'
    rw [next, next']
    obtain ⟨inner', rfl⟩ | ⟨rfl, -⟩ := turn_part turn rfl
    · exact ⟨.part brackets, fun outside => absurd outside (Option.some_ne_none _)⟩
    · -- The brace that ends the part is passed alone.
      exact absurd (first_of_two decided) (by decide)

theorem Mirrors.isTop_comma (mirrors : Mirrors frames n) (clear : misread frames ',' = false) :
    n.isTop ',' = frames.isEmpty := by
  cases mirrors with
  | code brackets => cases frames <;> rfl
  | quoted | template => rfl
  | @part inner => cases inner <;> rfl
  | @lineComment outer brackets =>
    rw [misread_comment (.inl rfl) brackets] at clear
    cases outer with
    | nil => cases clear
    | cons f outer => rfl
  | @blockComment start outer brackets =>
    rw [misread_comment (.inr ⟨start, rfl⟩) brackets] at clear
    cases outer with
    | nil => cases clear
    | cons f outer => rfl

theorem Mirrors.outside (mirrors : Mirrors frames n) (none : frames = []) : n = {} := by
  cases mirrors with
  | code => simp [none]
  | quoted | lineComment | blockComment | template => cases none
  | part => simp at none

end

section

variable {frames frames' others : List Frame} {n : Nesting} {c d : Char} {rest text : List Char} {pos : Nat}

theorem isLegible_one (decided : step bodyGoal frames 0 c (d :: rest) = .one frames')
    (clear : isLegible frames (c :: d :: rest) = true) :
    misread frames c = false ∧ isLegible frames' (d :: rest) = true := by
  rw [isLegible, decided] at clear
  simpa using clear

theorem isLegible_two (decided : step bodyGoal frames 0 c (d :: rest) = .two frames')
    (clear : isLegible frames (c :: d :: rest) = true) :
    misread frames c = false ∧ misread frames d = false ∧ isLegible frames' rest = true := by
  rw [isLegible, decided] at clear
  simpa [and_assoc] using clear

theorem step_comma_like (same : Alike frames others) (other : ¬(frames = [] ∧ c = ','))
    (moved : (step bodyGoal frames 0 c rest).frames?.isSome) :
    (step bodyGoal frames 0 c rest).Like (step commaGoal others pos c rest) := by
  refine step_like same (.refl _) fun outside => ?_
  subst outside
  have apart : (',' == c) = false := beq_false_of_ne fun comma => other ⟨rfl, comma.symm⟩
  have brace : ('\x7d' == c) = false := by
    refine beq_false_of_ne ?_
    rintro rfl
    cases moved
  simp [commaGoal, bodyGoal, List.isPrefixOf, apart, brace]

theorem step_comma : step bodyGoal [] 0 ',' rest = .one [] := by
  have plain : ',' ∉ marks := by decide
  simp [step, bodyGoal, List.isPrefixOf, codeStep_plain plain]

theorem pass_comma : pass [] (',' :: rest) = pass [] rest := by
  cases rest with
  | nil => rfl
  | cons d rest => exact pass_one step_comma

theorem isLegible_comma (clear : isLegible [] (',' :: rest) = true) : isLegible [] rest = true := by
  cases rest with
  | nil => rfl
  | cons d rest => exact (isLegible_one step_comma clear).2

theorem pass_before {front later} (decided : step bodyGoal frames 0 c (front ++ ',' :: later) = .one frames') :
    pass frames (c :: front) = pass frames' front := by
  cases front with
  | nil =>
    have ahead : step bodyGoal frames 0 c [' '] = step bodyGoal frames 0 c (',' :: later) :=
      step_ahead (ahead_inert (by decide) (by decide))
    rw [pass_last (ahead.trans decided)]
    rfl
  | cons e front =>
    have ahead : step bodyGoal frames 0 c (e :: front) = step bodyGoal frames 0 c (e :: (front ++ ',' :: later)) :=
      step_ahead (.refl _)
    exact pass_one (ahead.trans decided)

/-- Over a text, which a scan passes from `frames` to `after`, a scan for a comma and the walk come to the same comma,
or both to the end. -/
def Together (frames others after : List Frame) (n : Nesting) (pos : Nat) (text : List Char) : Prop :=
  ((∃ error, scan commaGoal others pos text = .error error) ∧ IsWhole ',' n text) ∨
  ∃ front later, text = front ++ ',' :: later ∧ pass frames front = some [] ∧ pass [] later = some after ∧
    isLegible [] later = true ∧ scan commaGoal others pos text = .ok ⟨',' :: later, pos + byteLength front⟩ ∧
    IsWhole ',' n front ∧ (n.walk front).isTop ',' = true

theorem Together.behind {others' after passed} (whole : IsWhole ',' n passed)
    (together : Together frames' others' after (n.walk passed) (pos + byteLength passed) text)
    (scanned : scan commaGoal others pos (passed ++ text) = scan commaGoal others' (pos + byteLength passed) text)
    (before : ∀ front later, text = front ++ ',' :: later → pass frames (passed ++ front) = pass frames' front) :
    Together frames others after n pos (passed ++ text) := by
  unfold Together
  rw [scanned]
  rcases together with ⟨ended, last⟩ | ⟨front, later, shown, closed, rest, clear, found, piece, top⟩
  · exact .inl ⟨ended, whole.append last⟩
  · refine .inr ⟨passed ++ front, later, by rw [shown, List.append_assoc],
      (before front later shown).trans closed, rest,
      clear, ?_, whole.append piece, ?_⟩
    · rw [found, byteLength_append, Nat.add_assoc]
    · rwa [Nesting.walk, List.foldl_append]

theorem scan_last (same : Alike frames others) (other : ¬(frames = [] ∧ c = ',')) :
    ∃ error, scan commaGoal others pos [c] = .error error := by
  cases found : scan commaGoal others pos [c] with
  | error error => exact ⟨error, rfl⟩
  | ok stop =>
    obtain ⟨stopped, -⟩ | ⟨next, -, rest⟩ | ⟨next, d, rest, -, split, -⟩ := scan_cons found
    · obtain ⟨rfl, comma⟩ := step_stop stopped
      have outside : frames = [] := by simpa [Alike] using same
      exact absurd ⟨outside, (by simpa [commaGoal, List.isPrefixOf] using comma : ',' = c).symm⟩ other
    · cases rest
    · cases split

theorem walk_together {frames others after n pos text} (passed : pass frames text = some after)
    (same : Alike frames others) (mirrors : Mirrors frames n) (clear : isLegible frames text = true) :
    Together frames others after n pos text := by
  match text with
  | [] => exact .inl ⟨⟨_, rfl⟩, isWhole_nil⟩
  | c :: rest =>
    by_cases comma : frames = [] ∧ c = ','
    · -- Outside of everything, both end the piece here.
      obtain ⟨rfl, rfl⟩ := comma
      rw [mirrors.outside rfl, same.nil]
      exact .inr ⟨[], rest, rfl, rfl, pass_comma ▸ passed, isLegible_comma clear, scan_stop rfl, isWhole_nil, rfl⟩
    have on (plain : misread frames c = false) : ¬(n.isTop c && c = ',') = true := by
      simp only [Bool.and_eq_true, decide_eq_true_eq]
      rintro ⟨top, rfl⟩
      rw [mirrors.isTop_comma plain] at top
      exact comma ⟨List.isEmpty_iff.1 top, rfl⟩
    match rest with
    | [] =>
      exact .inl ⟨scan_last same comma, isWhole_cons.2 ⟨on (by simpa [isLegible] using clear), isWhole_nil⟩⟩
    | d :: rest =>
      -- Both pass what the scan for a brace passes: one character, or two that belong together.
      have like (moved : (step bodyGoal frames 0 c (d :: rest)).frames?.isSome) :
          (step bodyGoal frames 0 c (d :: rest)).Like (step commaGoal others pos c (d :: rest)) :=
        step_comma_like same comma moved
      rw [Balanced.pass] at passed
      split at passed
      · rename_i next decided
        obtain ⟨plain, later⟩ := isLegible_one decided clear
        rw [decided] at like
        obtain ⟨others', decided', same'⟩ := (like rfl).of_one
        refine .behind (isWhole_cons.2 ⟨on plain, isWhole_nil⟩)
          (walk_together passed same' (mirrors.one plain decided) later) (scan_one decided')
            fun front behind shown => ?_
        rw [shown] at decided
        exact pass_before decided
      · rename_i next decided
        obtain ⟨plain, plain', later⟩ := isLegible_two decided clear
        rw [decided] at like
        obtain ⟨others', decided', same'⟩ := (like rfl).of_two
        obtain ⟨mirrors', inside⟩ := mirrors.two plain plain' decided
        have on' : ¬((n.step c).isTop d && d = ',') = true := by
          simp only [Nesting.isTop, Bool.and_eq_true, Option.isNone_iff_eq_none, decide_eq_true_eq]
          exact fun top => inside top.1.1.1.1.1 top.2
        refine .behind (isWhole_cons.2 ⟨on plain, isWhole_cons.2 ⟨on', isWhole_nil⟩⟩)
          (walk_together passed same' mirrors' later) ?_ fun front behind shown => ?_
        · rw [List.cons_append, List.cons_append, List.nil_append, scan_two decided']
          simp [Nat.add_assoc]
        · have ahead : step bodyGoal frames 0 c (d :: front) = step bodyGoal frames 0 c (d :: rest) :=
            step_ahead (.refl _)
          exact pass_two (ahead.trans decided)
      · cases passed
termination_by text.length

theorem splitFrom_scanned {after text} (passed : pass [] text = some after) (clear : isLegible [] text = true)
    (pos : Nat) :
    Scanned pos text (splitFrom ',' {} pos pos [] text) ∧
      ∀ p ∈ splitFrom ',' {} pos pos [] text, pass [] p.text = some [] ∨ pass [] p.text = some after := by
  have outside : Mirrors [] {} := .code (List.forall_mem_nil _)
  have together : Together [] [] after {} pos text := walk_together passed (.refl []) outside clear
  rcases together with
    ⟨⟨error, ended⟩, last⟩ | ⟨front, later, shown, closed, rest, clear', found, piece, top⟩
  · rw [splitFrom_eq_singleton last]
    refine ⟨.last ended, fun p mem => .inr ?_⟩
    rw [List.mem_singleton.1 mem]
    exact passed
  · obtain ⟨scanned, others⟩ := splitFrom_scanned rest clear' (pos + byteLength front + 1)
    have cut : (Cursor.mk text pos).upTo ⟨',' :: later, pos + byteLength front⟩ = front := by
      simp [Cursor.upTo, shown]
    have first := Scanned.comma found scanned
    rw [cut] at first
    have pieces : splitFrom ',' {} pos pos [] text = ⟨pos, front⟩ ::
        splitFrom ',' {} (pos + byteLength front + 1) (pos + byteLength front + 1) [] later := by
      have anew := (Nesting.eq_start_of_isTop (Nesting.settled_start.walk front) top).2
      rw [shown, splitFrom_append top, splitFrom_eq_singleton piece, anew]
      rfl
    rw [pieces]
    refine ⟨first, fun p mem => ?_⟩
    rcases List.mem_cons.1 mem with rfl | behind
    · exact .inl closed
    · exact others p behind
termination_by text.length
decreasing_by
  rw [shown]
  simp
  omega

theorem kept_of_pass {x w} (closing : isClosing x = true)
    (passed : pass [] w = some [] ∨ pass [] w = some [.lineComment]) : Kept [x] ['\n'] (trim w) := by
  let goal : Goal := ⟨[x], .parenthesizedCode, ⟨0, 0⟩⟩
  have feed : allBlank ['\n'] = true := rfl
  obtain ⟨stop, found⟩ : ∃ stop, scan goal [] 0 (w ++ '\n' :: [x]) = .ok ⟨[x], stop⟩ :=
    scan_of_pass closing rfl feed rfl (passed.imp_right (⟨·, List.mem_cons_self⟩)) 0
  obtain ⟨front, split, kept⟩ := kept_of_found closing rfl found
  have same : front = w ++ ['\n'] := by
    have split : (w ++ ['\n']) ++ [x] = front ++ [x] := by simpa using split
    exact (List.append_cancel_right split).symm
  rw [← trim_append_blank feed, ← same]
  exact kept ['\n'] feed fun _ => List.mem_cons_self

end

/-- Where nothing in an argument is misread, it is split at the commas that a scan finds outside of everything, and each
piece is code that could stand as an argument itself. -/
theorem split_scanned {c d : Cursor} {code : Code} (captured : Outline.parenthesized.run c = .ok (code, d))
    (clear : isLegible [] code.text.toList = true) :
    Scanned 0 code.text.toList (split code.text.toList ',') ∧
      ∀ p ∈ split code.text.toList ',', ∀ span, (Code.ofList p.text span).Bracketed ')' := by
  have closing : isClosing ')' = true := rfl
  have cut := ((Outline.delimited_tracks closing c (.refl c)).of_ok captured).good
  obtain ⟨after, passed, ends⟩ : ∃ after, pass [] code.text.toList = some after ∧
      (after = [] ∨ after = [.lineComment]) := by
    rcases closed_of_kept closing rfl cut.kept with closed | ⟨comment, -⟩
    · exact ⟨_, closed, .inl rfl⟩
    · exact ⟨_, comment, .inr rfl⟩
  obtain ⟨scanned, pieces⟩ := splitFrom_scanned passed clear 0
  refine ⟨scanned, fun p mem span => ?_⟩
  have passed : pass [] p.text = some [] ∨ pass [] p.text = some [.lineComment] := by
    rcases ends with rfl | rfl
    · exact .inl ((pieces p mem).elim id id)
    · exact pieces p mem
  refine ⟨?_, ?_, ?_⟩
  · simp [Code.ofList]
  · simp [Code.ofList]
  · simpa [Code.ofList] using kept_of_pass closing passed

/-- Commas in brackets, strings, template literals and the code inside of them are left alone. -/
theorem split_scanned_call :
    Scanned 0 "f(a, ')') /* d */, `,$\x7bb, '\x7d'\x7d,`, c // d".toList
      [⟨0, "f(a, ')') /* d */".toList⟩, ⟨18, " `,$\x7bb, '\x7d'\x7d,`".toList⟩, ⟨33, " c // d".toList⟩] := by
  have captured : Outline.parenthesized.run ⟨"(f(a, ')') /* d */, `,$\x7bb, '\x7d'\x7d,`, c // d\n)".toList, 0⟩ =
      .ok (⟨"f(a, ')') /* d */, `,$\x7bb, '\x7d'\x7d,`, c // d", false, ⟨1, 42⟩⟩, ⟨[], 43⟩) := rfl
  have clear : isLegible [] "f(a, ')') /* d */, `,$\x7bb, '\x7d'\x7d,`, c // d".toList = true := by decide +kernel
  exact (split_scanned captured clear).1

/-- The walk does not know comments: an argument is split at a comma in one, into pieces that are no code. -/
theorem comma_in_comment : ∃ code d, Outline.parenthesized.run ⟨"(a /* , */)".toList, 0⟩ = .ok (code, d) ∧
    ¬ Scanned 0 code.text.toList (split code.text.toList ',') ∧
    ∃ p ∈ split code.text.toList ',', ∀ span, ¬ (Code.ofList p.text span).Bracketed ')' := by
  refine ⟨⟨"a /* , */", false, ⟨1, 10⟩⟩, ⟨[], 11⟩, rfl, ?_, ⟨0, "a /* ".toList⟩, by decide, ?_⟩
  · have pieces : (split "a /* , */".toList ',').length = 2 := by decide
    intro scanned
    generalize split "a /* , */".toList ',' = list at pieces scanned
    cases scanned with
    | last => cases pieces
    | comma found => cases found
  · intro span balanced
    obtain ⟨stop, found⟩ := balanced.kept ⟨[')'], .parenthesizedCode, ⟨0, 0⟩⟩ 0 [] rfl
    have text : (Code.ofList "a /* ".toList span).text.toList = "a /*".toList := rfl
    rw [text] at found
    cases found

end ComponentCompiler.Template.Argument
