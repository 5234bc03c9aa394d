import ComponentCompiler.Proofs.Outline.Captured

/-!
# Passing over text

`pass` follows a scan for a closing brace over a piece of text and gives the frames that it leaves open.
-/

namespace ComponentCompiler.Template.Balanced

open Text

def bodyGoal : Goal := ⟨['\x7d'], .codeBlock, ⟨0, 0⟩⟩

/-- The frames after `text`, which a blank follows; none where a scan would stop or fail. -/
def pass (frames : List Frame) (text : List Char) : Option (List Frame) :=
  match text with
  | [] => some frames
  | [c] =>
    match step bodyGoal frames 0 c [' '] with
    | .one frames => some frames
    | _ => none
  | c :: d :: rest =>
    match step bodyGoal frames 0 c (d :: rest) with
    | .one frames => pass frames (d :: rest)
    | .two frames => pass frames rest
    | _ => none

def Closed (text : List Char) : Prop := pass [] text = some []

def EndsInComment (text : List Char) : Prop := pass [] text = some [.lineComment]

instance (text : List Char) : Decidable (Closed text) := inferInstanceAs (Decidable (_ = _))

instance (text : List Char) : Decidable (EndsInComment text) := inferInstanceAs (Decidable (_ = _))

/-- The steps of a text that is passed. -/
inductive Walked (after : List Frame) : List Frame → List Char → Prop where
  | nil : Walked after after []
  | last {frames c} (decided : step bodyGoal frames 0 c [' '] = .one after) : Walked after frames [c]
  | one {frames next c d rest} (decided : step bodyGoal frames 0 c (d :: rest) = .one next)
      (later : Walked after next (d :: rest)) : Walked after frames (c :: d :: rest)
  | two {frames next c d rest} (decided : step bodyGoal frames 0 c (d :: rest) = .two next)
      (later : Walked after next rest) : Walked after frames (c :: d :: rest)

section

variable {frames frames' : List Frame} {c d : Char} {rest rest' : List Char}

theorem pass_one (decided : step bodyGoal frames 0 c (d :: rest) = .one frames') :
    pass frames (c :: d :: rest) = pass frames' (d :: rest) := by
  rw [pass, decided]

theorem pass_cons (more : rest ≠ []) (decided : step bodyGoal frames 0 c rest = .one frames') :
    pass frames (c :: rest) = pass frames' rest := by
  cases rest with
  | nil => exact absurd rfl more
  | cons d rest => exact pass_one decided

theorem pass_two (decided : step bodyGoal frames 0 c (d :: rest) = .two frames') :
    pass frames (c :: d :: rest) = pass frames' rest := by
  rw [pass, decided]

theorem pass_last (decided : step bodyGoal frames 0 c [' '] = .one frames') : pass frames [c] = some frames' := by
  rw [pass, decided]

theorem walked_of_pass {after frames text} (passed : pass frames text = some after) : Walked after frames text := by
  fun_induction pass frames text with
  | case1 =>
    cases passed
    exact .nil
  | case2 frames c next decided =>
    cases passed
    exact .last decided
  | case4 frames c d rest next decided ih => exact .one decided (ih passed)
  | case5 frames c d rest next decided ih => exact .two decided (ih passed)
  | case3 | case6 => cases passed

theorem first_of_two {goal pos} (decided : step goal frames pos c rest = .two frames') :
    c ∈ ['/', '\\', '$', '*'] := by
  unfold step codeStep closeStep templateStep quotedStep at decided
  grind

theorem step_ahead (ahead : Ahead rest.head? rest'.head?) :
    step bodyGoal frames 0 c rest = step bodyGoal frames 0 c rest' := by
  cases frames with
  | nil => simp [step, bodyGoal, codeStep, ahead.slash, ahead.star]
  | cons f outer =>
    cases f <;>
      simp only [step, codeStep, templateStep, quotedStep, ahead.given, ahead.slash, ahead.star, ahead.brace]

theorem step_append : step bodyGoal frames 0 c (d :: (rest ++ rest')) = step bodyGoal frames 0 c (d :: rest) :=
  step_ahead (.refl _)

def Calm (c : Char) : Prop := c ≠ '/' ∧ c ≠ '*' ∧ c ≠ '$' ∧ c ≠ '\\'

instance (c : Char) : Decidable (Calm c) := inferInstanceAs (Decidable (_ ∧ _))

instance (c : Char) : Decidable (Inert c) := inferInstanceAs (Decidable (_ ∧ _))

theorem step_calm (calm : Calm c) : step bodyGoal frames 0 c rest = step bodyGoal frames 0 c rest' := by
  obtain ⟨slash, star, dollar, backslash⟩ := calm
  cases frames with
  | nil => simp [step, bodyGoal, codeStep, slash]
  | cons f outer => cases f <;> simp [step, codeStep, templateStep, quotedStep, slash, star, dollar, backslash]

theorem ahead_inert (first : Inert c) (second : Inert d) : Ahead (some c) (some d) := by
  obtain ⟨slash, star, brace⟩ := first
  obtain ⟨slash', star', brace'⟩ := second
  exact ⟨rfl, by simp [slash, slash'], by simp [star, star'], by simp [brace, brace']⟩

end

section

variable {after : List Frame} {rest : List Char} {d : Char}

theorem pass_append_inert {frames text} (passed : pass frames text = some after) (inert : Inert d) :
    pass frames (text ++ d :: rest) = pass after (d :: rest) := by
  replace passed := walked_of_pass passed
  induction passed with
  | nil => rfl
  | @last frames c decided =>
    have same : step bodyGoal frames 0 c (d :: rest) = step bodyGoal frames 0 c [' '] :=
      step_ahead (ahead_inert inert (by decide))
    exact pass_one (same.trans decided)
  | one decided _ ih => exact (pass_one (step_append.trans decided)).trans ih
  | two decided _ ih => exact (pass_two (step_append.trans decided)).trans ih

theorem pass_append_calm {frames text} (passed : pass frames text = some after)
    (calm : ∀ c, text.getLast? = some c → Calm c) : pass frames (text ++ rest) = pass after rest := by
  replace passed := walked_of_pass passed
  induction passed with
  | nil => rfl
  | last decided =>
    cases rest with
    | nil => exact pass_last decided
    | cons d rest => exact pass_one ((step_calm (calm _ rfl)).trans decided)
  | one decided _ ih =>
    refine (pass_one (step_append.trans decided)).trans (ih fun z last => calm z ?_)
    rwa [List.getLast?_cons_cons]
  | @two _ _ _ _ text decided _ ih =>
    refine (pass_two (step_append.trans decided)).trans (ih fun z last => calm z ?_)
    cases text with
    | nil => cases last
    | cons a text => rwa [List.getLast?_cons_cons, List.getLast?_cons_cons]

end

def Step.onto (base : List Frame) : Step → Step
  | .one frames => .one (frames ++ base)
  | .two frames => .two (frames ++ base)
  | decision => decision

section

variable {after base : List Frame} {c : Char}

theorem closeStep_onto {frames} (moved : (closeStep bodyGoal frames 0 c).frames?.isSome) :
    closeStep bodyGoal (frames ++ base) 0 c = (closeStep bodyGoal frames 0 c).onto base := by
  unfold closeStep at moved ⊢
  split at moved
  · simp only [List.cons_append]
    split <;> rfl
  · cases moved

theorem codeStep_onto {frames next} (moved : (codeStep bodyGoal frames 0 c next).frames?.isSome) :
    codeStep bodyGoal (frames ++ base) 0 c next = (codeStep bodyGoal frames 0 c next).onto base := by
  unfold codeStep at moved ⊢
  split
  · rfl
  split
  · rfl
  split
  · rfl
  split
  · rfl
  split
  · rename_i slash star quotes ticks closing
    simp only [slash, star, quotes, ticks, closing, if_true, if_false, Bool.false_eq_true] at moved
    exact closeStep_onto moved
  split <;> rfl

/-- What goes on inside of frames, or in code proper, does not see what is around. -/
theorem step_onto {frames rest} (code : isCode base = true)
    (moved : (step bodyGoal frames 0 c rest).frames?.isSome) :
    step bodyGoal (frames ++ base) 0 c rest = (step bodyGoal frames 0 c rest).onto base := by
  cases frames with
  | nil =>
    have inside : step bodyGoal [] 0 c rest = codeStep bodyGoal [] 0 c rest.head? := by
      unfold step at moved ⊢
      dsimp only at moved ⊢
      split
      · rename_i stops
        rw [if_pos stops] at moved
        cases moved
      · rfl
    rw [inside] at moved ⊢
    have onto : codeStep bodyGoal base 0 c rest.head? = _ := codeStep_onto moved
    rw [List.nil_append, ← onto]
    match base, code with
    | [], _ => exact inside
    | .bracket _ :: _, _ => rfl
  | cons f outer =>
    cases f with
    | bracket close => exact codeStep_onto moved
    | template =>
      show templateStep (outer ++ base) c rest.head? = (templateStep outer c rest.head?).onto base
      unfold templateStep
      repeat' split
      all_goals rfl
    | quoted quote start =>
      show quotedStep quote start (outer ++ base) 0 c rest.head? =
        (quotedStep quote start outer 0 c rest.head?).onto base
      unfold quotedStep
      repeat' split
      all_goals rfl
    | lineComment | blockComment start =>
      simp only [step, List.cons_append]
      split <;> rfl

theorem step_onto_one {frames next rest} (code : isCode base = true)
    (decided : step bodyGoal frames 0 c rest = .one next) :
    step bodyGoal (frames ++ base) 0 c rest = .one (next ++ base) := by
  rw [step_onto code (decided ▸ rfl), decided]
  rfl

theorem step_onto_two {frames next rest} (code : isCode base = true)
    (decided : step bodyGoal frames 0 c rest = .two next) :
    step bodyGoal (frames ++ base) 0 c rest = .two (next ++ base) := by
  rw [step_onto code (decided ▸ rfl), decided]
  rfl

theorem pass_onto {frames text} (code : isCode base = true) (passed : pass frames text = some after) :
    pass (frames ++ base) text = some (after ++ base) := by
  replace passed := walked_of_pass passed
  induction passed with
  | nil => rfl
  | last decided => exact pass_last (step_onto_one code decided)
  | one decided _ ih => exact (pass_one (step_onto_one code decided)).trans ih
  | two decided _ ih => exact (pass_two (step_onto_two code decided)).trans ih

end

theorem Step.Like.of_one {frames other} (like : (Step.one frames).Like other) :
    ∃ others, other = .one others ∧ Alike frames others := by
  cases like with
  | one same => exact ⟨_, rfl, same⟩

theorem Step.Like.of_two {frames other} (like : (Step.two frames).Like other) :
    ∃ others, other = .two others ∧ Alike frames others := by
  cases like with
  | two same => exact ⟨_, rfl, same⟩

section

variable {goal : Goal} {after : List Frame} {rest : List Char} {d : Char}

theorem step_body_like {frames others pos c x more text text' taken} (same : Alike frames others)
    (ahead : Ahead text.head? text'.head?) (closing : isClosing x = true) (close : goal.close = x :: more)
    (decided : step bodyGoal frames 0 c text = taken) (moved : taken.frames?.isSome) :
    taken.Like (step goal others pos c text') := by
  subst decided
  refine step_like same ahead ?_
  rintro rfl
  have brace : ('\x7d' == c) = false := by
    refine beq_false_of_ne ?_
    rintro rfl
    cases moved
  have bracket : (x == c) = false := by
    refine beq_false_of_ne ?_
    rintro rfl
    rcases isClosing_cases closing with (rfl | rfl) | rfl <;> cases moved
  simp [close, bodyGoal, List.isPrefixOf, brace, bracket]

theorem scan_pass {frames others text pos x more} (passed : pass frames text = some after)
    (same : Alike frames others) (closing : isClosing x = true) (close : goal.close = x :: more) (inert : Inert d) :
    ∃ others' pos', Alike after others' ∧ scan goal others pos (text ++ d :: rest) =
      scan goal others' pos' (d :: rest) := by
  replace passed := walked_of_pass passed
  induction passed generalizing others pos with
  | nil => exact ⟨others, pos, same, rfl⟩
  | last decided =>
    have ahead : Ahead [' '].head? (d :: rest).head? := ahead_inert (by decide) inert
    obtain ⟨others', decided', same'⟩ := (step_body_like same ahead closing close decided rfl).of_one
    exact ⟨others', _, same', scan_one decided'⟩
  | @one _ _ c e text decided _ ih =>
    have ahead : Ahead (e :: text).head? (e :: (text ++ d :: rest)).head? := .refl _
    obtain ⟨others', decided', same'⟩ := (step_body_like same ahead closing close decided rfl).of_one
    have first : scan goal others pos (c :: e :: (text ++ d :: rest)) = _ := scan_one decided'
    rw [List.cons_append, List.cons_append, first]
    exact ih same'
  | @two _ _ _ e text decided _ ih =>
    have ahead : Ahead (e :: text).head? (e :: (text ++ d :: rest)).head? := .refl _
    obtain ⟨others', decided', same'⟩ := (step_body_like same ahead closing close decided rfl).of_two
    rw [List.cons_append, List.cons_append, scan_two decided']
    exact ih same'

/-- A scan stops behind a text that leaves nothing open, or a comment that ends in the blanks behind it. -/
theorem scan_of_pass {w b tail x more} (closing : isClosing x = true) (close : goal.close = x :: more)
    (blank : allBlank b = true) (behind : more.isPrefixOf tail)
    (passed : pass [] w = some [] ∨ pass [] w = some [.lineComment] ∧ '\n' ∈ b) (pos : Nat) :
    ∃ p, scan goal [] pos (w ++ (b ++ x :: tail)) = .ok ⟨x :: tail, p⟩ := by
  have stops (p : Nat) : scan goal [] p (x :: tail) = .ok ⟨x :: tail, p⟩ := scan_stop (by simp [step, close, behind])
  obtain ⟨y, first, inert⟩ := head_inert tail closing blank
  obtain ⟨others, shown⟩ := List.head?_eq_some_iff.1 first
  have goes {after : List Frame} (passed : pass [] w = some after) :
      ∃ frames p, Alike after frames ∧ scan goal [] pos (w ++ (b ++ x :: tail)) =
        scan goal frames p (b ++ x :: tail) := by
    rw [shown]
    exact scan_pass passed (.refl []) closing close inert
  rcases passed with closed | ⟨comment, feed⟩
  · obtain ⟨frames, p, same, goes⟩ := goes closed
    rw [goes, same.nil, scan_blanks close closing blank]
    exact ⟨_, stops _⟩
  · obtain ⟨frames, p, same, goes⟩ := goes comment
    obtain ⟨g, outer, rfl, top, below⟩ := same.uncons
    rw [goes, below.nil]
    cases g <;> cases top
    rw [scan_comment close closing blank feed]
    exact ⟨_, stops _⟩

theorem step_body_of_moved {frames others pos c text text' taken} (same : Alike frames others)
    (ahead : Ahead text.head? text'.head?) (decided : step goal frames pos c text = taken)
    (moved : taken.frames?.isSome) : taken.Like (step bodyGoal others 0 c text') := by
  subst decided
  refine step_like same ahead ?_
  rintro rfl
  have here : goal.close.isPrefixOf (c :: text) = false := by
    rw [Bool.eq_false_iff]
    intro stops
    simp [step, stops, Step.frames?] at moved
  have apart : c ≠ '\x7d' := by
    rintro rfl
    simp [step, here, codeStep, closeStep, isClosing, Step.frames?] at moved
  simp [here, bodyGoal, List.isPrefixOf, apart.symm]

/-- Code that a scan has found leaves nothing open, or a comment up to the end of the line. -/
theorem pass_of_scan {w b tail x frames others pos stop} (closing : isClosing x = true) (blank : allBlank b = true)
    (reach : Reachable frames) (same : Alike frames others)
    (found : scan goal frames pos (w ++ (b ++ x :: tail)) = .ok stop) (here : stop.rest = x :: tail) :
    pass others w = some [] ∨ pass others w = some [.lineComment] ∧ '\n' ∈ b := by
  match w with
  | [] =>
    rcases scan_blank_tail blank reach found here with rfl | ⟨rfl, feed⟩
    · rw [same.nil]
      exact .inl rfl
    · obtain ⟨g, outer, rfl, top, below⟩ := same.uncons
      rw [below.nil]
      cases g <;> simp only [Frame.unplaced, reduceCtorEq] at top
      exact .inr ⟨rfl, feed⟩
  | [c] =>
    obtain ⟨y, first, inert⟩ := head_inert tail closing blank
    have ahead : Ahead (b ++ x :: tail).head? [' '].head? := by
      rw [first]
      exact ahead_inert inert (by decide)
    have found : scan goal frames pos (c :: (b ++ x :: tail)) = .ok stop := found
    obtain ⟨-, rfl⟩ | ⟨next, decided, rest⟩ | ⟨next, d, rest, decided, split, ended⟩ := scan_cons found
    · have longer := congrArg List.length here
      simp at longer
      omega
    · obtain ⟨others', decided', same'⟩ := (step_body_of_moved same ahead decided rfl).of_one
      rw [pass_last decided']
      exact pass_of_scan (w := []) closing blank (step_reachable reach decided rfl) same' rest here
    · rw [split] at decided
      exact absurd here (scan_two_inside closing blank reach split decided ended)
  | c :: e :: text =>
    have ahead : Ahead (e :: (text ++ (b ++ x :: tail))).head? (e :: text).head? := .refl _
    have found : scan goal frames pos (c :: e :: (text ++ (b ++ x :: tail))) = .ok stop := found
    obtain ⟨-, rfl⟩ | ⟨next, decided, rest⟩ | ⟨next, d, rest, decided, split, more⟩ := scan_cons found
    · have longer := congrArg List.length here
      simp at longer
      omega
    · obtain ⟨others', decided', same'⟩ := (step_body_of_moved same ahead decided rfl).of_one
      rw [pass_one decided']
      exact pass_of_scan closing blank (step_reachable reach decided rfl) same' rest here
    · obtain ⟨others', decided', same'⟩ := (step_body_of_moved same ahead decided rfl).of_two
      cases split
      rw [pass_two decided']
      exact pass_of_scan closing blank (step_reachable reach decided rfl) same' more here

/-- A scan for `close` passes over `text` when `behind` and the closing text follow it. -/
def Kept (close behind text : List Char) : Prop :=
  ∀ (goal : Goal) (pos : Nat) (rest : List Char), goal.close = close →
    ∃ stop, scan goal [] pos (text ++ (behind ++ (close ++ rest))) = .ok ⟨close ++ rest, stop⟩

theorem kept_of_found {text x more pos stop} (closing : isClosing x = true) (close : goal.close = x :: more)
    (found : scan goal [] pos text = .ok stop) :
    ∃ passed, text = passed ++ stop.rest ∧ ∀ behind, allBlank behind = true →
      ('\n' ∈ passed → '\n' ∈ behind) → Kept (x :: more) behind (trim passed) := by
  obtain ⟨passed, rfl, here, -⟩ := scan_suffix found
  refine ⟨passed, rfl, fun behind blank' ends goal' pos' rest close' => ?_⟩
  obtain ⟨a, b, split, before, blank⟩ := exists_trim passed
  obtain ⟨tail, shown⟩ : ∃ tail, stop.rest = x :: tail := by
    rw [close] at here
    obtain ⟨tail, shown⟩ := List.isPrefixOf_iff_prefix.1 here
    exact ⟨more ++ tail, shown.symm⟩
  rw [shown, split, List.append_assoc, List.append_assoc, scan_blanks close closing before] at found
  have inside : '\n' ∈ b → '\n' ∈ behind := by
    intro mem
    refine ends ?_
    rw [split]
    simp [mem]
  have passed := (pass_of_scan closing blank .nil (.refl _) found shown).imp_right (And.imp_right inside)
  exact scan_of_pass closing close' blank' (List.isPrefixOf_iff_prefix.2 ⟨rest, rfl⟩) passed pos'

theorem kept_of_identifier {text x more behind} (closing : isClosing x = true)
    (parts : ∀ c ∈ text, isIdentifierPart c = true) (blank : allBlank behind = true) :
    Kept (x :: more) behind text := by
  intro goal pos rest close
  rw [scan_plain close closing fun c mem => not_mark_of_identifierPart (parts c mem),
    scan_blanks close closing blank]
  exact ⟨_, scan_stop (by simp [step, close])⟩

theorem closed_of_kept {x more b text} (closing : isClosing x = true) (blank : allBlank b = true)
    (kept : Kept (x :: more) b text) : Closed text ∨ EndsInComment text ∧ '\n' ∈ b := by
  obtain ⟨stop, found⟩ := kept ⟨x :: more, .codeBlock, ⟨0, 0⟩⟩ 0 [] rfl
  exact pass_of_scan closing blank .nil (.refl _) found rfl

end

end ComponentCompiler.Template.Balanced
