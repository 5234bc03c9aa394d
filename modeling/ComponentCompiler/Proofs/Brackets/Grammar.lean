import ComponentCompiler.Proofs.Outline.Positions

/-!
# The grammar of embedded code

`Sentence` is the code that leaves nothing open. Main statement: `find_sentence`.
-/

namespace ComponentCompiler.Template.Balanced

open Text

/-- The inside of a string. Only behind a backslash may it hold its quote or a line feed. -/
inductive Quoted (quote : Char) : List Char → Prop where
  | nil : Quoted quote []
  | escape {c : Char} {rest : List Char} (more : Quoted quote rest) : Quoted quote ('\\' :: c :: rest)
  | plain {c : Char} {rest : List Char} (inside : c ≠ '\\' ∧ c ≠ '\n' ∧ c ≠ quote) (more : Quoted quote rest) :
      Quoted quote (c :: rest)

mutual

/-- Code with nothing left open. A slash stands for itself where it starts no comment. -/
inductive Sentence : List Char → Prop where
  | nil : Sentence []
  | plain {c : Char} {rest : List Char} (inside : c ∉ marks) (more : Sentence rest) : Sentence (c :: rest)
  | slash {rest : List Char} (apart : rest.head? ≠ some '/' ∧ rest.head? ≠ some '*') (more : Sentence rest) :
      Sentence ('/' :: rest)
  | group {opening close : Char} {inner rest : List Char} (pair : closing? opening = some close)
      (inside : Sentence inner) (more : Sentence rest) : Sentence (opening :: (inner ++ close :: rest))
  | string {quote : Char} {inner rest : List Char} (quotes : quote = '\'' ∨ quote = '"')
      (inside : Quoted quote inner) (more : Sentence rest) : Sentence (quote :: (inner ++ quote :: rest))
  | literal {inner rest : List Char} (inside : Literal inner) (more : Sentence rest) :
      Sentence ('`' :: (inner ++ '`' :: rest))
  | lineComment {inner rest : List Char} (inside : '\n' ∉ inner) (more : Sentence rest) :
      Sentence ('/' :: '/' :: (inner ++ '\n' :: rest))
  | blockComment {inner rest : List Char} (inside : ¬ ['*', '/'] <:+: inner) (more : Sentence rest) :
      Sentence ('/' :: '*' :: (inner ++ '*' :: '/' :: rest))

/-- The inside of a template literal, with sentences in its holes. -/
inductive Literal : List Char → Prop where
  | nil : Literal []
  | escape {c : Char} {rest : List Char} (more : Literal rest) : Literal ('\\' :: c :: rest)
  | plain {c : Char} {rest : List Char} (inside : c ≠ '\\' ∧ c ≠ '`') (apart : c = '$' → rest.head? ≠ some '\x7b')
      (more : Literal rest) : Literal (c :: rest)
  | hole {inner rest : List Char} (inside : Sentence inner) (more : Literal rest) :
      Literal ('$' :: '\x7b' :: (inner ++ '\x7d' :: rest))

end

section

variable {frames frames' outer : List Frame} {c d close : Char} {rest inner : List Char}

theorem pass_char (decided : ∀ ahead, step bodyGoal frames 0 c ahead = .one frames') :
    pass frames (c :: rest) = pass frames' rest := by
  cases rest with
  | nil => exact pass_last (decided _)
  | cons d rest => exact pass_one (decided _)

theorem step_code (code : isCode frames = true) (opens : isClosing c = false) (ahead : List Char) :
    step bodyGoal frames 0 c ahead = codeStep bodyGoal frames 0 c ahead.head? := by
  have apart : ¬ '\x7d' = c := by
    rintro rfl
    cases opens
  match frames, code with
  | [], _ => simp [step, bodyGoal, List.isPrefixOf, apart]
  | .bracket _ :: _, _ => rfl

theorem pass_slash (code : isCode frames = true) (apart : rest.head? ≠ some '/' ∧ rest.head? ≠ some '*') :
    pass frames ('/' :: rest) = pass frames rest := by
  have decided {ahead : List Char} (slash : ahead.head? ≠ some '/') (star : ahead.head? ≠ some '*') :
      step bodyGoal frames 0 '/' ahead = .one frames := by
    rw [step_code code rfl]
    simp [codeStep, slash, star, isClosing, closing?]
  cases rest with
  | nil => exact pass_last (decided (by decide) (by decide))
  | cons d rest => exact pass_one (decided apart.1 apart.2)

theorem closing?_cases {opening} (pair : closing? opening = some close) :
    (opening, close) ∈ [('(', ')'), ('[', ']'), ('\x7b', '\x7d')] := by
  unfold closing? at pair
  grind

theorem pass_code (code : isCode frames = true) (opens : isClosing c = false)
    (decided : ∀ next, codeStep bodyGoal frames 0 c next = .one frames') :
    pass frames (c :: rest) = pass frames' rest :=
  pass_char fun ahead => (step_code code opens ahead).trans (decided _)

theorem pass_group {opening} (code : isCode frames = true) (pair : closing? opening = some close)
    (inside : ∀ rest, rest.head? ≠ some '/' ∧ rest.head? ≠ some '*' →
      pass (.bracket close :: frames) (inner ++ rest) = pass (.bracket close :: frames) rest) :
    pass frames (opening :: (inner ++ close :: rest)) = pass frames rest := by
  have kinds := closing?_cases pair
  simp only [List.mem_cons, List.not_mem_nil, or_false, Prod.mk.injEq] at kinds
  rcases kinds with ⟨rfl, rfl⟩ | ⟨rfl, rfl⟩ | ⟨rfl, rfl⟩
  all_goals
    refine (pass_code code rfl fun _ => rfl).trans ((inside _ (by simp)).trans ?_)
    exact pass_char fun _ => rfl

theorem pass_tick (code : isCode frames = true) : pass frames ('`' :: rest) = pass (.template :: frames) rest :=
  pass_code code rfl fun _ => by simp [codeStep]

theorem pass_hole :
    pass (.template :: outer) ('$' :: '\x7b' :: rest) = pass (.bracket '\x7d' :: .template :: outer) rest :=
  pass_two (by simp [step, templateStep])

theorem pass_literalChar {more} (inside : c ≠ '\\' ∧ c ≠ '`') (apart : c = '$' → more.head? ≠ some '\x7b') :
    pass (.template :: outer) (c :: (more ++ '`' :: rest)) = pass (.template :: outer) (more ++ '`' :: rest) := by
  refine pass_cons (by simp) ?_
  have text : ¬ (c = '$' ∧ (more ++ '`' :: rest).head? = some '\x7b') := by
    rintro ⟨dollar, brace⟩
    cases more with
    | nil => cases brace
    | cons d more => exact apart dollar brace
  simp only [step, templateStep, inside, decide_false, Bool.false_and, Bool.false_eq_true, if_false,
    Bool.and_eq_true, decide_eq_true_eq, text]

theorem pass_slashes (code : isCode frames = true) :
    pass frames ('/' :: '/' :: rest) = pass (.lineComment :: frames) rest :=
  pass_two (by rw [step_code code rfl]; simp [codeStep])

theorem pass_slashStar (code : isCode frames = true) :
    pass frames ('/' :: '*' :: rest) = pass (.blockComment 0 :: frames) rest :=
  pass_two (by rw [step_code code rfl]; simp [codeStep])

theorem pass_quoted {quote} (h : Quoted quote inner) (other : quote ≠ '\\' ∧ quote ≠ '\n') :
    pass (.quoted quote 0 :: outer) (inner ++ quote :: rest) = pass outer rest := by
  induction h with
  | nil => exact pass_char fun ahead => by simp [step, quotedStep, other]
  | escape more ih => exact (pass_two (by simp [step, quotedStep])).trans ih
  | plain inside more ih => exact (pass_char fun ahead => by simp [step, quotedStep, inside]).trans ih

theorem pass_lineComment (h : '\n' ∉ inner) :
    pass (.lineComment :: outer) (inner ++ '\n' :: rest) = pass outer rest := by
  induction inner with
  | nil => exact pass_char fun ahead => by simp [step]
  | cons c inner ih =>
    obtain ⟨first, others⟩ := not_or.1 (mt List.mem_cons.2 h)
    exact (pass_char fun ahead => by simp [step, Ne.symm first]).trans (ih others)

theorem pass_blockComment (h : ¬ ['*', '/'] <:+: inner) :
    pass (.blockComment 0 :: outer) (inner ++ '*' :: '/' :: rest) = pass outer rest := by
  induction inner with
  | nil => exact pass_two (by simp [step])
  | cons c inner ih =>
    have later := ih fun found => h (found.trans (List.suffix_cons c inner).isInfix)
    have decided : step bodyGoal (.blockComment 0 :: outer) 0 c (inner ++ '*' :: '/' :: rest) =
        .one (.blockComment 0 :: outer) := by
      have apart : c = '*' → (inner ++ '*' :: '/' :: rest).head? ≠ some '/' := by
        rintro rfl head
        cases inner with
        | nil => cases head
        | cons d inner =>
          cases head
          exact h ⟨[], inner, rfl⟩
      rw [step, if_neg (by simpa using apart)]
    exact (pass_cons (by simp) decided).trans later

theorem pass_string {quote} (code : isCode frames = true) (quotes : quote = '\'' ∨ quote = '"')
    (h : Quoted quote inner) : pass frames (quote :: (inner ++ quote :: rest)) = pass frames rest := by
  rcases quotes with rfl | rfl <;>
    exact (pass_code code rfl fun _ => by simp [codeStep]).trans (pass_quoted h (by decide))

theorem not_closing (plain : c ∉ marks) : isClosing c = false := by
  rw [Bool.eq_false_iff]
  exact fun closing => plain (mark_of_closing closing)

theorem head_append {first} (apart : first.head? ≠ some '/' ∧ first.head? ≠ some '*')
    (ends : rest.head? ≠ some '/' ∧ rest.head? ≠ some '*') :
    (first ++ rest).head? ≠ some '/' ∧ (first ++ rest).head? ≠ some '*' := by
  cases first with
  | nil => exact ends
  | cons => exact apart

end

mutual

/-- A sentence is passed, in any code around it, where what follows makes no comment of a slash at its end. -/
theorem Sentence.passed {frames text rest} (h : Sentence text) (code : isCode frames = true)
    (ends : rest.head? ≠ some '/' ∧ rest.head? ≠ some '*') : pass frames (text ++ rest) = pass frames rest := by
  match h with
  | .nil => rfl
  | .plain inside more =>
    exact (pass_code code (not_closing inside) fun _ => codeStep_plain inside).trans (more.passed code ends)
  | .slash apart more =>
    exact (pass_slash code (head_append apart ends)).trans (more.passed code ends)
  | .group pair inside more =>
    rw [List.cons_append, List.append_assoc, List.cons_append,
      pass_group code pair fun _ behind => inside.passed rfl behind]
    exact more.passed code ends
  | .string quotes inside more =>
    rw [List.cons_append, List.append_assoc, List.cons_append, pass_string code quotes inside]
    exact more.passed code ends
  | .literal inside more =>
    rw [List.cons_append, List.append_assoc, List.cons_append,
      pass_tick code, inside.passed]
    exact more.passed code ends
  | .lineComment inside more =>
    rw [List.cons_append, List.cons_append, List.append_assoc, List.cons_append,
      pass_slashes code, pass_lineComment inside]
    exact more.passed code ends
  | .blockComment inside more =>
    rw [List.cons_append, List.cons_append, List.append_assoc, List.cons_append, List.cons_append,
      pass_slashStar code, pass_blockComment inside]
    exact more.passed code ends

theorem Literal.passed {outer text rest} (h : Literal text) :
    pass (.template :: outer) (text ++ '`' :: rest) = pass outer rest := by
  match h with
  | .nil => exact pass_char fun ahead => by simp [step, templateStep]
  | .escape more => exact (pass_two (by simp [step, templateStep])).trans more.passed
  | .plain inside apart more => exact (pass_literalChar inside apart).trans more.passed
  | .hole inside more =>
    rw [List.cons_append, List.cons_append, List.append_assoc, List.cons_append, pass_hole,
      inside.passed rfl (by simp)]
    exact (pass_char fun _ => rfl).trans more.passed

end

def Frame.ending : Frame → List Char
  | .bracket close => [close]
  | .template => ['`']
  | .quoted quote _ => [quote]
  | .lineComment => ['\n']
  | .blockComment _ => ['*', '/']

def Frame.Holds : Frame → List Char → Prop
  | .bracket _ => Sentence
  | .template => Literal
  | .quoted quote _ => Quoted quote
  | .lineComment => ('\n' ∉ ·)
  | .blockComment _ => (¬ ['*', '/'] <:+: ·)

def Completes : List Frame → List Char → Prop
  | [], text => Sentence text
  | f :: outer, text => ∃ inner rest, text = inner ++ (f.ending ++ rest) ∧ f.Holds inner ∧ Completes outer rest

section

variable {frames next outer : List Frame} {f : Frame} {c d e : Char} {rest ahead : List Char}

theorem Completes.close (done : Completes outer rest) (empty : f.Holds []) :
    Completes (f :: outer) (f.ending ++ rest) := ⟨[], rest, rfl, empty, done⟩

theorem Completes.more (done : Completes (f :: outer) rest) (first : List Char)
    (grow : ∀ inner, (∀ x, inner.head? = some x → rest.head? = some x) → f.Holds inner → f.Holds (first ++ inner)) :
    Completes (f :: outer) (first ++ rest) := by
  obtain ⟨inner, behind, rfl, holds, later⟩ := done
  refine ⟨first ++ inner, behind, by simp, grow inner ?_ holds, later⟩
  cases inner with
  | nil => exact fun x none => nomatch none
  | cons => exact fun x first => first

theorem Completes.code (done : Completes frames rest) (code : isCode frames = true) (first : List Char)
    (grow : ∀ inner, (∀ x, inner.head? = some x → rest.head? = some x) → Sentence inner → Sentence (first ++ inner)) :
    Completes frames (first ++ rest) := by
  match frames, code with
  | [], _ => exact grow rest (fun _ => id) done
  | .bracket close :: outer, _ => exact done.more first grow

theorem Completes.part (done : Completes (f :: frames) rest) (code : isCode frames = true) (first : List Char)
    (grow : ∀ inner more, f.Holds inner → Sentence more → Sentence (first ++ (inner ++ (f.ending ++ more)))) :
    Completes frames (first ++ rest) := by
  obtain ⟨inner, behind, rfl, holds, later⟩ := done
  have grown := later.code code (first ++ (inner ++ f.ending))
    fun more _ fine => by simpa using grow inner more holds fine
  simpa using grown

theorem completes_code {turned} (code : isCode frames = true) (turn : CodeTurn 0 frames c (some e) turned)
    (seen : ∀ x, rest.head? = some x → x = e) (moved : turned = .one next) (done : Completes next rest) :
    Completes frames (c :: rest) := by
  cases turn <;> cases moved
  case quote quotes => exact done.part code [c] fun inner more => .string quotes
  case tick => exact done.part code ['`'] fun inner more => .literal
  case close top =>
    subst top
    exact done.close Sentence.nil
  case opening pair => exact done.part code [c] fun inner more => .group pair
  case plain other apart =>
    refine done.code code [c] fun inner head fine => ?_
    by_cases slash : c = '/'
    · obtain ⟨line, block⟩ := apart slash
      subst slash
      refine .slash ⟨fun first => line ?_, fun first => block ?_⟩ fine
      all_goals rw [← seen _ (head _ first)]
    · exact .plain (other slash) fine

theorem completes_one (seen : ∀ x, rest.head? = some x → x = e)
    (decided : step bodyGoal frames 0 c (e :: ahead) = .one next)
    (done : Completes next rest) : Completes frames (c :: rest) := by
  have turn : Turn 0 frames c (some e) (.one next) := step_turn decided rfl
  cases turn with
  | code code turn => exact completes_code code turn seen rfl done
  | leave => exact done.close Literal.nil
  | literal escape tick hole =>
    refine done.more [c] fun inner head => .plain ⟨fun back => Option.some_ne_none _ (escape back), tick⟩ ?_
    rintro rfl first
    exact hole rfl (congrArg some (seen _ (head _ first)).symm)
  | unquote => exact done.close Quoted.nil
  | quoted escape feed inside =>
    refine done.more [c] fun inner head => .plain ⟨fun back => Option.some_ne_none _ (escape back), feed, inside⟩
  | feed => exact done.close (f := .lineComment) (by simp [Frame.Holds])
  | line inside => exact done.more [c] fun inner head holds => by simpa [Frame.Holds, Ne.symm inside] using holds
  | block inside =>
    refine done.more [c] fun inner head holds found => ?_
    rcases List.infix_cons_iff.1 found with here | later
    · obtain ⟨rfl, behind⟩ := List.cons_prefix_cons.1 here
      obtain ⟨more, rfl⟩ := behind
      exact inside rfl (congrArg some (seen _ (head _ rfl)).symm)
    · exact holds later

theorem completes_two (decided : step bodyGoal frames 0 c (d :: rest) = .two next) (done : Completes next rest) :
    Completes frames (c :: d :: rest) := by
  have turn : Turn 0 frames c (some d) (.two next) := step_turn decided rfl
  cases turn with
  | code code turn =>
    cases turn with
    | lineComment => exact done.part code ['/', '/'] fun inner more => .lineComment
    | blockComment => exact done.part code ['/', '*'] fun inner more => .blockComment
  | escape literal =>
    rcases literal with rfl | ⟨_, _, rfl⟩
    · exact done.more ['\\', d] fun inner _ => .escape
    · exact done.more ['\\', d] fun inner _ => .escape
  | hole =>
    obtain ⟨inner, behind, rfl, holds, later⟩ := done
    have grown := later.more ('$' :: '\x7b' :: (inner ++ ['\x7d']))
      fun more _ fine => by simpa [Frame.Holds] using Literal.hole holds fine
    simpa [Frame.ending] using grown
  | uncomment => exact done.close (f := .blockComment _) (by simp [Frame.Holds])

end

theorem completes_of_pass {frames text} (passed : pass frames text = some []) : Completes frames text := by
  replace passed := walked_of_pass passed
  induction passed with
  | nil => exact Sentence.nil
  | last decided => exact completes_one (fun _ none => nomatch none) decided Sentence.nil
  | one decided _ ih => exact completes_one (fun _ first => (Option.some.inj first).symm) decided ih
  | two decided _ ih => exact completes_two decided ih

/-- A text leaves nothing open exactly if it is a sentence. -/
theorem closed_iff_sentence {text} : Closed text ↔ Sentence text := by
  refine ⟨completes_of_pass, fun h => ?_⟩
  have passed : pass [] (text ++ []) = pass [] [] := h.passed rfl (by simp)
  rwa [List.append_nil] at passed

/-- A sentence leads from `c` to `stop`, and `close` follows it. -/
def EndsSentence (close : List Char) (c stop : Cursor) : Prop :=
  ∃ text, c.Passes text stop ∧ Sentence text ∧ close <+: stop.rest

section

variable {goal : Goal} {c stop : Cursor} {x : Char} {more : List Char}

theorem passes_of_find (found : find goal c = .ok stop) :
    goal.close <+: stop.rest ∧ ∃ text, c.Passes text stop := by
  obtain ⟨text, split, close, place⟩ := scan_suffix found
  exact ⟨List.isPrefixOf_iff_prefix.1 close, text, split, place⟩

theorem endsSentence_of_find (closing : isClosing x = true) (close : goal.close = x :: more)
    (found : find goal c = .ok stop) : EndsSentence goal.close c stop := by
  obtain ⟨follows, text, passes⟩ := passes_of_find found
  obtain ⟨tail, behind⟩ := close ▸ follows
  refine ⟨text, passes, closed_iff_sentence.1 ?_, follows⟩
  have scanned : scan goal [] c.pos (text ++ ([] ++ x :: (more ++ tail))) = .ok stop := by
    rw [List.nil_append, ← List.cons_append, behind, ← passes.rest]
    exact found
  rcases pass_of_scan closing rfl .nil (.refl []) scanned behind.symm with closed | ⟨-, feed⟩
  · exact closed
  · cases feed

theorem find_of_endsSentence (closing : isClosing x = true) (close : goal.close = x :: more)
    (ends : EndsSentence goal.close c stop) : find goal c = .ok stop := by
  obtain ⟨text, passes, sentence, follows⟩ := ends
  obtain ⟨tail, behind⟩ := close ▸ follows
  obtain ⟨pos, goes⟩ : ∃ pos, scan goal [] c.pos (text ++ x :: (more ++ tail)) = .ok ⟨x :: (more ++ tail), pos⟩ :=
    scan_of_pass (b := []) closing close rfl (by simp) (.inl (closed_iff_sentence.2 sentence)) c.pos
  have found : find goal c = .ok ⟨x :: (more ++ tail), pos⟩ := by
    unfold find
    rw [passes.rest, ← behind, List.cons_append, goes]
  obtain ⟨-, text', passes'⟩ := passes_of_find found
  obtain rfl : text' = text := by
    have split := passes'.rest.symm.trans passes.rest
    rw [← behind] at split
    exact List.append_cancel_right split
  obtain ⟨rest, place⟩ := stop
  cases behind
  obtain rfl : pos = place := passes'.pos.trans passes.pos.symm
  exact found

end

/-- A scan ends where the first sentence ends that the closing text follows, between two characters of the text. -/
theorem find_sentence {goal : Goal} (close : goal.close ∈ [['\x7d'], [')'], ['\x7d', '\x7d']])
    {source : String} {base : Nat}
    {c : Cursor} (here : (Cursor.start source base).Leads c) (stop : Cursor) :
    (find goal c = .ok stop ↔
      EndsSentence goal.close c stop ∧ ∀ d, EndsSentence goal.close c d → stop.pos ≤ d.pos) ∧
    (find goal c = .ok stop → stop.pos ∈ boundaries base source.toList) := by
  obtain ⟨x, more, closing, shape⟩ : ∃ x more, isClosing x = true ∧ goal.close = x :: more := by
    simp only [List.mem_cons, List.not_mem_nil, or_false] at close
    rcases close with same | same | same <;> exact ⟨_, _, rfl, same⟩
  refine ⟨⟨fun found => ⟨endsSentence_of_find closing shape found, fun d ends => ?_⟩, fun ends => ?_⟩, fun found => ?_⟩
  · rw [find_of_endsSentence closing shape ends] at found
    cases found
    exact Nat.le_refl _
  · exact find_of_endsSentence closing shape ends.1
  · obtain ⟨-, text, passes⟩ := passes_of_find found
    exact (here.trans passes.leads).mem_boundaries

/-- A sentence with a group, a string, a template literal and a comment before the braces that end an interpolation. -/
theorem find_sentence_interpolation :
    let source := "\x7b\x7b f('\x7d\x7d', `$\x7b[a]\x7d`) /**/ / b \x7d\x7d c"
    let goal : Goal := ⟨['\x7d', '\x7d'], .interpolation, ⟨0, 2⟩⟩
    let c := (Cursor.start source 0).skip 2
    let stop := (Cursor.start source 0).skip 30
    find goal c = .ok stop ∧ EndsSentence goal.close c stop ∧ stop.pos ∈ boundaries 0 source.toList := by
  intro source goal c stop
  have computed : (find goal c).toOption = some stop := by decide +kernel
  have found : find goal c = .ok stop := by
    cases ended : find goal c with
    | error e =>
      rw [ended] at computed
      cases computed
    | ok d =>
      rw [ended] at computed
      exact congrArg _ (Option.some.inj computed)
  have leads := ((Cursor.start source 0).passes_skip 2).leads
  obtain ⟨ends, place⟩ := @find_sentence goal (by decide) source 0 c leads stop
  exact ⟨found, (ends.1 found).1, place found⟩

end ComponentCompiler.Template.Balanced
