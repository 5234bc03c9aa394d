import ComponentCompiler.Proofs.Text.Trim
import ComponentCompiler.Template.Outline.Inline

/-!
# Where embedded code ends
-/

namespace ComponentCompiler.Template.Balanced

open Text

def Frame.unplaced : Frame → Frame
  | .quoted quote _ => .quoted quote 0
  | .blockComment _ => .blockComment 0
  | frame => frame

def Alike (frames others : List Frame) : Prop := frames.map Frame.unplaced = others.map Frame.unplaced

theorem Alike.refl (frames : List Frame) : Alike frames frames := rfl

theorem Alike.cons {f g frames others} (top : f.unplaced = g.unplaced) (same : Alike frames others) :
    Alike (f :: frames) (g :: others) := by
  simp_all [Alike]

theorem Alike.nil {others} (same : Alike [] others) : others = [] := by
  simpa [Alike] using same.symm

theorem Alike.uncons {f frames others} (same : Alike (f :: frames) others) :
    ∃ g outer, others = g :: outer ∧ f.unplaced = g.unplaced ∧ Alike frames outer := by
  cases others with
  | nil => simp [Alike] at same
  | cons g outer =>
    obtain ⟨top, rest⟩ := List.cons.inj same
    exact ⟨g, outer, rfl, top, rest⟩

def Step.frames? : Step → Option (List Frame)
  | .one frames | .two frames => some frames
  | _ => none

inductive Step.Like : Step → Step → Prop where
  | stop : Like .stop .stop
  | one {frames others} (same : Alike frames others) : Like (.one frames) (.one others)
  | two {frames others} (same : Alike frames others) : Like (.two frames) (.two others)
  | fail {error other} : Like (.fail error) (.fail other)

/-- The same as far as a step asks about the next character. -/
structure Ahead (next other : Option Char) : Prop where
  given : next.isSome = other.isSome
  slash : next = some '/' ↔ other = some '/'
  star : next = some '*' ↔ other = some '*'
  brace : next = some '{' ↔ other = some '{'

theorem Ahead.refl (next : Option Char) : Ahead next next := ⟨rfl, .rfl, .rfl, .rfl⟩

section

variable {goal goal' : Goal} {frames frames' : List Frame} {pos pos' : Nat} {c : Char}
  {next next' : Option Char}

theorem closeStep_like (same : Alike frames frames') :
    (closeStep goal frames pos c).Like (closeStep goal' frames' pos' c) := by
  rcases frames with _ | ⟨f, outer⟩
  · rw [same.nil]
    exact .fail
  · obtain ⟨g, outer', rfl, top, rest⟩ := same.uncons
    cases f <;> cases g <;> simp only [Frame.unplaced, reduceCtorEq] at top
    case bracket.bracket expected _ =>
      cases top
      unfold closeStep
      dsimp only
      split
      · exact .one rest
      · exact .fail
    all_goals exact .fail

theorem codeStep_like (same : Alike frames frames') (ahead : Ahead next next') :
    (codeStep goal frames pos c next).Like (codeStep goal' frames' pos' c next') := by
  unfold codeStep
  simp only [ahead.slash, ahead.star]
  split
  · exact .two (.cons rfl same)
  split
  · exact .two (.cons rfl same)
  split
  · exact .one (.cons rfl same)
  split
  · exact .one (.cons rfl same)
  split
  · exact closeStep_like same
  split
  · exact .one (.cons rfl same)
  · exact .one same

theorem templateStep_like (same : Alike frames frames') (ahead : Ahead next next') :
    (templateStep frames c next).Like (templateStep frames' c next') := by
  unfold templateStep
  simp only [ahead.given, ahead.brace]
  split
  · exact .two (.cons rfl same)
  split
  · exact .one same
  split
  · exact .two (.cons rfl (.cons rfl same))
  · exact .one (.cons rfl same)

theorem quotedStep_like {quote start start'} (same : Alike frames frames') (ahead : Ahead next next') :
    (quotedStep quote start frames pos c next).Like (quotedStep quote start' frames' pos' c next') := by
  unfold quotedStep
  simp only [ahead.given]
  split
  · exact .two (.cons rfl same)
  split
  · exact .fail
  split
  · exact .one same
  · exact .one (.cons rfl same)

/-- A step inside frames does not depend on places. Outside of all frames it asks for the closing text
as well. -/
theorem step_like {rest rest'} (same : Alike frames frames') (ahead : Ahead rest.head? rest'.head?)
    (close : frames = [] → goal.close.isPrefixOf (c :: rest) = goal'.close.isPrefixOf (c :: rest')) :
    (step goal frames pos c rest).Like (step goal' frames' pos' c rest') := by
  rcases frames with _ | ⟨f, outer⟩
  · rw [same.nil]
    unfold step
    dsimp only
    rw [close rfl]
    split
    · exact .stop
    · exact codeStep_like (.refl _) ahead
  · obtain ⟨g, outer', rfl, top, below⟩ := same.uncons
    cases f <;> cases g <;> simp only [Frame.unplaced, reduceCtorEq] at top
    case bracket.bracket => exact codeStep_like same ahead
    case template.template => exact templateStep_like below ahead
    case quoted.quoted =>
      cases top
      exact quotedStep_like below ahead
    case lineComment.lineComment =>
      unfold step
      dsimp only
      split
      · exact .one below
      · exact .one same
    case blockComment.blockComment =>
      unfold step
      simp only [ahead.slash]
      split
      · exact .two below
      · exact .one same

end

section

variable {goal goal' : Goal} {frames frames' : List Frame} {pos pos' : Nat} {c d : Char}
  {text : List Char} {stop : Cursor}

theorem scan_stop (decided : step goal frames pos c text = .stop) :
    scan goal frames pos (c :: text) = .ok ⟨c :: text, pos⟩ := by
  unfold scan
  rw [decided]

theorem scan_one (decided : step goal frames pos c text = .one frames') :
    scan goal frames pos (c :: text) = scan goal frames' (pos + c.utf8Size) text := by
  conv => lhs; unfold scan
  rw [decided]

theorem scan_two (decided : step goal frames pos c (d :: text) = .two frames') :
    scan goal frames pos (c :: d :: text) = scan goal frames' (pos + c.utf8Size + d.utf8Size) text := by
  conv => lhs; unfold scan
  rw [decided]

theorem scan_fail {error} (decided : step goal frames pos c text = .fail error) :
    scan goal frames pos (c :: text) = .error error := by
  unfold scan
  rw [decided]

theorem scan_cons (h : scan goal frames pos (c :: text) = .ok stop) :
    (step goal frames pos c text = .stop ∧ stop = ⟨c :: text, pos⟩) ∨
    (∃ frames', step goal frames pos c text = .one frames' ∧
      scan goal frames' (pos + c.utf8Size) text = .ok stop) ∨
    ∃ frames' d rest, step goal frames pos c text = .two frames' ∧ text = d :: rest ∧
      scan goal frames' (pos + c.utf8Size + d.utf8Size) rest = .ok stop := by
  unfold scan at h
  split at h
  · rename_i decided
    exact .inl ⟨decided, (Except.ok.inj h).symm⟩
  · cases h
  · rename_i decided
    exact .inr (.inl ⟨_, decided, h⟩)
  · rename_i decided
    exact .inr (.inr ⟨_, _, _, decided, rfl, h⟩)
  · cases h

theorem codeStep_ne_stop {next} : codeStep goal frames pos c next ≠ .stop := by
  unfold codeStep closeStep
  grind

theorem step_stop (h : step goal frames pos c text = .stop) :
    frames = [] ∧ goal.close.isPrefixOf (c :: text) := by
  unfold step at h
  split at h
  · split at h
    · exact ⟨rfl, ‹_›⟩
    · exact absurd h codeStep_ne_stop
  · exact absurd h codeStep_ne_stop
  · unfold templateStep at h
    grind
  · unfold quotedStep at h
    grind
  · grind
  · grind

theorem scan_suffix {frames pos text} (h : scan goal frames pos text = .ok stop) :
    ∃ passed, text = passed ++ stop.rest ∧ goal.close.isPrefixOf stop.rest ∧ stop.pos = pos + byteLength passed := by
  match text with
  | [] => cases h
  | c :: text =>
    obtain ⟨decided, rfl⟩ | ⟨frames', -, rest⟩ | ⟨frames', d, text, -, rfl, rest⟩ := scan_cons h
    · exact ⟨[], rfl, (step_stop decided).2, rfl⟩
    · obtain ⟨passed, rfl, close, there⟩ := scan_suffix rest
      exact ⟨c :: passed, rfl, close, by rw [there, byteLength_cons, Nat.add_assoc]⟩
    · obtain ⟨passed, rfl, close, there⟩ := scan_suffix rest
      exact ⟨c :: d :: passed, rfl,
        close, by rw [there, byteLength_cons, byteLength_cons, Nat.add_assoc, Nat.add_assoc]⟩
termination_by text.length

theorem scan_length (h : scan goal frames pos text = .ok stop) : stop.rest.length ≤ text.length := by
  obtain ⟨passed, rfl, -⟩ := scan_suffix h
  simp

theorem scan_moves (h : scan goal frames pos text = .ok stop) :
    frames = [] ∨ stop.rest.length < text.length := by
  cases text with
  | nil => cases h
  | cons c text =>
    obtain ⟨decided, -⟩ | ⟨frames', -, rest⟩ | ⟨frames', d, text, -, rfl, rest⟩ := scan_cons h
    · exact .inl (step_stop decided).1
    · have shorter := scan_length rest
      simp only [List.length_cons]
      omega
    · have shorter := scan_length rest
      simp only [List.length_cons]
      omega

end

def marks : List Char := ['/', '\'', '"', '`', '(', ')', '[', ']', '{', '}']

def isCode : List Frame → Bool
  | [] | .bracket _ :: _ => true
  | _ => false

/-- What a step can do in code. -/
inductive CodeTurn (pos : Nat) (frames : List Frame) : Char → Option Char → Step → Prop where
  | lineComment : CodeTurn pos frames '/' (some '/') (.two (.lineComment :: frames))
  | blockComment : CodeTurn pos frames '/' (some '*') (.two (.blockComment pos :: frames))
  | quote {c next} (quotes : c = '\'' ∨ c = '"') : CodeTurn pos frames c next (.one (.quoted c pos :: frames))
  | tick {next} : CodeTurn pos frames '`' next (.one (.template :: frames))
  | close {c outer next} (closing : isClosing c = true) (top : frames = .bracket c :: outer) :
    CodeTurn pos frames c next (.one outer)
  | opening {c close next} (opens : closing? c = some close) :
      CodeTurn pos frames c next (.one (.bracket close :: frames))
  | plain {c next} (other : c ≠ '/' → c ∉ marks) (apart : c = '/' → next ≠ some '/' ∧ next ≠ some '*') :
    CodeTurn pos frames c next (.one frames)

/-- What a step can do over a character before `next`, when it does not stop or fail. -/
inductive Turn (pos : Nat) : List Frame → Char → Option Char → Step → Prop where
  | code {frames c next s} (code : isCode frames = true) (turn : CodeTurn pos frames c next s) :
      Turn pos frames c next s
  | escape {f outer next} (literal : f = .template ∨ ∃ quote start, f = .quoted quote start)
      (more : next.isSome = true) :
    Turn pos (f :: outer) '\\' next (.two (f :: outer))
  | leave {outer next} : Turn pos (.template :: outer) '`' next (.one outer)
  | hole {outer} : Turn pos (.template :: outer) '$' (some '{') (.two (.bracket '}' :: .template :: outer))
  | literal {outer c next} (escape : c = '\\' → next = none) (tick : c ≠ '`') (hole : c = '$' → next ≠ some '{') :
    Turn pos (.template :: outer) c next (.one (.template :: outer))
  | unquote {quote start outer next} (escape : quote = '\\' → next = none) :
    Turn pos (.quoted quote start :: outer) quote next (.one outer)
  | quoted {quote start outer c next} (escape : c = '\\' → next = none) (feed : c ≠ '\n') (inside : c ≠ quote) :
    Turn pos (.quoted quote start :: outer) c next (.one (.quoted quote start :: outer))
  | feed {outer next} : Turn pos (.lineComment :: outer) '\n' next (.one outer)
  | line {outer c next} (inside : c ≠ '\n') : Turn pos (.lineComment :: outer) c next (.one (.lineComment :: outer))
  | uncomment {start outer} : Turn pos (.blockComment start :: outer) '*' (some '/') (.two outer)
  | block {start outer c next} (inside : c = '*' → next ≠ some '/') :
    Turn pos (.blockComment start :: outer) c next (.one (.blockComment start :: outer))

section

variable {goal : Goal} {frames frames' : List Frame} {pos : Nat} {c : Char} {next : Option Char} {s : Step}

theorem codeStep_turn (decided : codeStep goal frames pos c next = s) (moved : s.frames?.isSome = true) :
    CodeTurn pos frames c next s := by
  unfold codeStep at decided
  split at decided
  · rename_i here
    subst decided
    obtain ⟨rfl, rfl⟩ : c = '/' ∧ next = some '/' := by simpa using here
    exact .lineComment
  rename_i line
  split at decided
  · rename_i here
    subst decided
    obtain ⟨rfl, rfl⟩ : c = '/' ∧ next = some '*' := by simpa using here
    exact .blockComment
  rename_i block
  split at decided
  · rename_i here
    subst decided
    exact .quote (by simpa using here)
  rename_i quotes
  split at decided
  · rename_i tick
    subst decided tick
    exact .tick
  rename_i tick
  split at decided
  · rename_i closing
    unfold closeStep at decided
    split at decided
    · split at decided
      · rename_i same
        subst decided same
        exact .close closing rfl
      · subst decided
        cases moved
    · subst decided
      cases moved
  rename_i closing
  split at decided
  · subst decided
    exact .opening ‹_›
  · subst decided
    refine .plain (fun slash mark => ?_) fun slash => by simpa [slash] using And.intro line block
    simp only [marks, List.mem_cons, List.not_mem_nil, or_false] at mark
    rcases mark with rfl | rfl | rfl | rfl | rfl | rfl | rfl | rfl | rfl | rfl
    all_goals simp_all [isClosing, closing?]

theorem step_turn {rest} (decided : step goal frames pos c rest = s) (moved : s.frames?.isSome = true) :
    Turn pos frames c rest.head? s := by
  unfold step at decided
  split at decided
  · split at decided
    · subst decided
      cases moved
    · exact .code rfl (codeStep_turn decided moved)
  · exact .code rfl (codeStep_turn decided moved)
  · unfold templateStep at decided
    split at decided
    · rename_i here
      subst decided
      obtain ⟨rfl, more⟩ : c = '\\' ∧ rest.head?.isSome = true := by
        simpa only [Bool.and_eq_true, decide_eq_true_eq] using here
      exact .escape (.inl rfl) more
    rename_i escape
    split at decided
    · rename_i tick
      subst decided tick
      exact .leave
    rename_i tick
    split at decided
    · rename_i here
      subst decided
      obtain ⟨rfl, ahead⟩ : c = '$' ∧ rest.head? = some '{' := by simpa using here
      rw [ahead]
      exact .hole
    · rename_i hole
      subst decided
      exact .literal (by simpa using escape) tick (by simpa using hole)
  · unfold quotedStep at decided
    split at decided
    · rename_i here
      subst decided
      obtain ⟨rfl, more⟩ : c = '\\' ∧ rest.head?.isSome = true := by
        simpa only [Bool.and_eq_true, decide_eq_true_eq] using here
      exact .escape (.inr ⟨_, _, rfl⟩) more
    rename_i escape
    split at decided
    · subst decided
      cases moved
    split at decided
    · rename_i ends
      subst decided ends
      exact .unquote (by simpa using escape)
    · subst decided
      exact .quoted (by simpa using escape) ‹_› ‹_›
  · split at decided
    · rename_i ends
      subst decided ends
      exact .feed
    · subst decided
      exact .line ‹_›
  · split at decided
    · rename_i here
      subst decided
      obtain ⟨rfl, ahead⟩ : c = '*' ∧ rest.head? = some '/' := by simpa using here
      rw [ahead]
      exact .uncomment
    · rename_i inside
      subst decided
      exact .block (by simpa using inside)

theorem Turn.code_of (turn : Turn pos frames c next s) (code : isCode frames = true) :
    CodeTurn pos frames c next s := by
  cases turn with
  | code _ turn => exact turn
  | escape literal => rcases literal with rfl | ⟨_, _, rfl⟩ <;> cases code
  | _ => cases code

end

/-- Frames that a scan from outside all frames can come into: nothing is opened inside a line comment, and
no string is quoted by blanks. -/
structure Reachable (frames : List Frame) : Prop where
  comment : Frame.lineComment ∉ frames.tail
  quotes : ∀ {quote start}, Frame.quoted quote start ∈ frames → isBlank quote = false

theorem Reachable.nil : Reachable [] := ⟨by simp, by simp⟩

section

variable {goal : Goal} {frames outer frames' : List Frame} {f : Frame} {pos : Nat} {c : Char}
  {rest : List Char}

theorem Reachable.pop (h : Reachable (f :: outer)) : Reachable outer :=
  ⟨fun mem => h.comment (List.mem_of_mem_tail mem), fun mem => h.quotes (List.mem_cons_of_mem f mem)⟩

theorem Reachable.push (h : Reachable outer) (free : Frame.lineComment ∉ outer)
    (quotes : ∀ quote start, f = .quoted quote start → isBlank quote = false) : Reachable (f :: outer) := by
  refine ⟨free, fun mem => ?_⟩
  rcases List.mem_cons.1 mem with same | below
  · exact quotes _ _ same.symm
  · exact h.quotes below

theorem Reachable.free (h : Reachable frames) (code : isCode frames = true) : Frame.lineComment ∉ frames := by
  cases frames with
  | nil => simp
  | cons f outer =>
    cases f with
    | bracket close => simpa using h.comment
    | _ => cases code

theorem Turn.reachable {next s} (turn : Turn pos frames c next s) (h : Reachable frames)
    (moved : s.frames? = some frames') : Reachable frames' := by
  cases turn with
  | code code turn =>
    have free := h.free code
    cases turn with
    | quote quotes =>
      cases moved
      refine h.push free ?_
      rintro _ _ ⟨⟩
      rcases quotes with rfl | rfl <;> decide
    | close _ top =>
      cases moved
      subst top
      exact h.pop
    | plain =>
      cases moved
      exact h
    | _ =>
      cases moved
      exact h.push free nofun
  | hole =>
    cases moved
    exact h.push (by simpa using h.comment) nofun
  | leave | unquote | feed | uncomment =>
    cases moved
    exact h.pop
  | escape | literal | quoted | line | block =>
    cases moved
    exact h

theorem step_reachable {s} (h : Reachable frames) (decided : step goal frames pos c rest = s)
    (moved : s.frames? = some frames') : Reachable frames' :=
  (step_turn decided (by rw [moved]; rfl)).reachable h moved

theorem ne_of_blank {d} (blank : isBlank c = true) (ink : isBlank d = false) : c ≠ d := by
  rintro rfl
  rw [blank] at ink
  cases ink

theorem codeStep_plain {next} (plain : c ∉ marks) : codeStep goal frames pos c next = .one frames := by
  simp only [marks, List.mem_cons, List.not_mem_nil, or_false, not_or] at plain
  simp [codeStep, isClosing, closing?, plain]

theorem not_mark_of_blank (blank : isBlank c = true) : c ∉ marks := by
  have ink : marks.all (!isBlank ·) = true := by decide
  intro mem
  simpa [blank] using List.all_eq_true.1 ink c mem

theorem not_mark_of_identifierPart (part : isIdentifierPart c = true) : c ∉ marks := by
  have apart : marks.all (!isIdentifierPart ·) = true := by decide
  intro mem
  simpa [part] using List.all_eq_true.1 apart c mem

theorem step_blank_inside (blank : isBlank c = true) (h : Reachable (f :: outer)) (code : f ≠ .lineComment) :
    step goal (f :: outer) pos c rest = .one (f :: outer) ∨
      ∃ error, step goal (f :: outer) pos c rest = .fail error := by
  have apart {d : Char} (ink : isBlank d = false) : c ≠ d := ne_of_blank blank ink
  cases f with
  | bracket close => exact .inl (codeStep_plain (not_mark_of_blank blank))
  | template =>
    left
    simp [step, templateStep, apart (d := '\\') (by decide), apart (d := '`') (by decide),
      apart (d := '$') (by decide)]
  | quoted quote start =>
    have inside : c ≠ quote := apart (h.quotes List.mem_cons_self)
    by_cases broken : c = '\n'
    · right
      simp [step, quotedStep, broken]
    · left
      simp [step, quotedStep, apart (d := '\\') (by decide), broken, inside]
  | lineComment => exact absurd rfl code
  | blockComment start =>
    left
    simp [step, apart (d := '*') (by decide)]

theorem scan_blank_tail {b tail stop} (blank : allBlank b = true) (h : Reachable frames)
    (found : scan goal frames pos (b ++ tail) = .ok stop) (here : stop.rest = tail) :
    frames = [] ∨ frames = [.lineComment] ∧ '\n' ∈ b := by
  induction b generalizing frames pos with
  | nil =>
    rcases scan_moves found with outside | moved
    · exact .inl outside
    · rw [here] at moved
      exact absurd moved (Nat.lt_irrefl _)
  | cons c b ih =>
    obtain ⟨first, others⟩ : isBlank c = true ∧ allBlank b = true := by simpa [allBlank] using blank
    rw [List.cons_append] at found
    rcases frames with _ | ⟨f, outer⟩
    · exact .inl rfl
    right
    by_cases comment : f = .lineComment
    · subst comment
      by_cases ends : c = '\n'
      · have next : step goal (.lineComment :: outer) pos c (b ++ tail) = .one outer := by simp [step, ends]
        rw [scan_one next] at found
        rcases ih others h.pop found with rfl | ⟨rfl, -⟩
        · simp [ends]
        · exact absurd List.mem_cons_self h.comment
      · have next : step goal (.lineComment :: outer) pos c (b ++ tail) = .one (.lineComment :: outer) := by
          simp [step, ends]
        rw [scan_one next] at found
        rcases ih others h found with impossible | ⟨same, inside⟩
        · cases impossible
        · exact ⟨same, List.mem_cons_of_mem c inside⟩
    · rcases step_blank_inside first h comment with next | ⟨error, failed⟩
      · rw [scan_one next] at found
        rcases ih others h found with impossible | ⟨same, -⟩
        · cases impossible
        · exact absurd (List.cons.inj same).1 comment
      · rw [scan_fail failed] at found
        cases found

theorem isClosing_cases {x} (closing : isClosing x = true) : (x = ')' ∨ x = ']') ∨ x = '}' := by
  simpa [isClosing] using closing

theorem mark_of_closing {x} (closing : isClosing x = true) : x ∈ marks := by
  rcases isClosing_cases closing with (rfl | rfl) | rfl <;> decide

theorem scan_plain {w text x more} (close : goal.close = x :: more) (closing : isClosing x = true)
    (plain : ∀ c ∈ w, c ∉ marks) : scan goal [] pos (w ++ text) = scan goal [] (pos + byteLength w) text := by
  induction w generalizing pos with
  | nil => rfl
  | cons c w ih =>
    obtain ⟨first, others⟩ := List.forall_mem_cons.1 plain
    have apart : ¬x = c := by
      rintro rfl
      exact first (mark_of_closing closing)
    have next : step goal [] pos c (w ++ text) = .one [] := by
      simp [step, close, apart, codeStep_plain first]
    rw [List.cons_append, scan_one next, ih others, byteLength_cons, Nat.add_assoc]

theorem scan_blanks {b text x more} (close : goal.close = x :: more) (closing : isClosing x = true)
    (blank : allBlank b = true) : scan goal [] pos (b ++ text) = scan goal [] (pos + byteLength b) text :=
  scan_plain close closing fun c mem => not_mark_of_blank (List.all_eq_true.1 blank c mem)

theorem scan_comment {b text x more} (close : goal.close = x :: more) (closing : isClosing x = true)
    (blank : allBlank b = true) (ends : '\n' ∈ b) :
    scan goal [.lineComment] pos (b ++ text) = scan goal [] (pos + byteLength b) text := by
  induction b generalizing pos with
  | nil => cases ends
  | cons c b ih =>
    obtain ⟨first, others⟩ : isBlank c = true ∧ allBlank b = true := by simpa [allBlank] using blank
    rw [List.cons_append, byteLength_cons, ← Nat.add_assoc]
    by_cases here : c = '\n'
    · have next : step goal [.lineComment] pos c (b ++ text) = .one [] := by simp [step, here]
      rw [scan_one next, scan_blanks close closing others]
    · have next : step goal [.lineComment] pos c (b ++ text) = .one [.lineComment] := by simp [step, here]
      rw [scan_one next, ih others ((List.mem_cons.1 ends).resolve_left (Ne.symm here))]

def Inert (c : Char) : Prop := c ≠ '/' ∧ c ≠ '*' ∧ c ≠ '{'

theorem head_inert {b x} (tail : List Char) (closing : isClosing x = true) (blank : allBlank b = true) :
    ∃ y, (b ++ x :: tail).head? = some y ∧ Inert y := by
  cases b with
  | nil =>
    refine ⟨x, rfl, ?_⟩
    rcases isClosing_cases closing with (rfl | rfl) | rfl <;> simp [Inert]
  | cons c b =>
    have first : isBlank c = true := by simp_all [allBlank]
    exact ⟨c, rfl, ne_of_blank first (by decide), ne_of_blank first (by decide), ne_of_blank first (by decide)⟩

theorem step_two_inert {d} (inert : Inert d) (decided : step goal frames pos c (d :: rest) = .two frames') :
    ∃ f outer, frames' = f :: outer ∧ f ≠ .lineComment := by
  obtain ⟨slash, star, brace⟩ := inert
  have turn : Turn pos frames c (some d) (.two frames') := step_turn decided rfl
  cases turn with
  | code _ turn =>
    cases turn with
    | lineComment => exact absurd rfl slash
    | blockComment => exact absurd rfl star
  | escape literal =>
    refine ⟨_, _, rfl, ?_⟩
    rcases literal with rfl | ⟨_, _, rfl⟩ <;> nofun
  | hole => exact absurd rfl brace
  | uncomment => exact absurd rfl slash

theorem scan_two_inside {b tail text x d stop} (closing : isClosing x = true) (blank : allBlank b = true)
    (reach : Reachable frames) (split : b ++ x :: tail = d :: text)
    (decided : step goal frames pos c (d :: text) = .two frames')
    (found : scan goal frames' (pos + c.utf8Size + d.utf8Size) text = .ok stop) : stop.rest ≠ x :: tail := by
  intro here
  obtain ⟨y, first, inert⟩ := head_inert tail closing blank
  rw [split] at first
  cases first
  obtain ⟨f, outer, rfl, code⟩ := step_two_inert inert decided
  cases b with
  | nil =>
    cases split
    have shorter := scan_length found
    rw [here] at shorter
    exact absurd shorter (Nat.not_succ_le_self _)
  | cons e b =>
    cases split
    have inside : Reachable (f :: outer) := step_reachable reach decided rfl
    have others : allBlank b = true := by simp_all [allBlank]
    rcases scan_blank_tail others inside found here with impossible | ⟨comment, -⟩
    · cases impossible
    · exact code (List.cons.inj comment).1

end

end ComponentCompiler.Template.Balanced
