import ComponentCompiler.Proofs.Outline.WellFormed
import ComponentCompiler.Proofs.Text.Passage

/-!
# Where the parts of a line stand

`Tracks` says of a reader that it leads to a later cursor, and that every span of its result lies between the two.
-/

namespace ComponentCompiler

open Text

/-- Something inside a line, or a line, and not the end of a block or template. -/
def Template.Expectation.isInner : Template.Expectation → Bool
  | .blockEnd | .templateEnd => false
  | _ => true

def Template.ParseError.Inner : Template.ParseError → Prop
  | .unexpected _ expected _ => expected.isInner = true
  | _ => True

namespace Text.Cursor

section

variable {a c d : Cursor} {text : List Char} {x : Char}

/-- The fault lies behind `o`, and it is one of a line. -/
def Locates (o : Cursor) (e : Template.ParseError) : Prop := o.Reaches e.span ∧ e.Inner

theorem locates_unexpectedAt (before : a.Leads c) {expected} (inner : expected.isInner = true) :
    a.Locates (.unexpectedAt c expected) := by
  refine ⟨?_, inner⟩
  obtain ⟨rest, pos⟩ := c
  have here : a.Reaches ⟨pos, pos⟩ := before.reaches (.refl _)
  cases rest with
  | nil => exact here
  | cons x rest =>
    have passed := before.reaches (passes_cons x rest pos).leads
    unfold Template.ParseError.unexpectedAt Template.Found.here
    dsimp only [peek?, List.head?_cons]
    split
    · exact here
    · exact passed

end

end Text.Cursor

namespace Template

/-! ### How runs end -/

def Yields (E : ParseError → Prop) (P : α → Prop) : Except ParseError α → Prop
  | .ok a => P a
  | .error e => E e

theorem Yields.mono {E : ParseError → Prop} {P P' : α → Prop} {x} (inner : Yields E P x) (weaker : ∀ a, P a → P' a) :
    Yields E P' x := by
  cases x with
  | error e => exact inner
  | ok a => exact weaker a inner

theorem Yields.self {E : ParseError → Prop} {P : α → Prop} {x} (inner : Yields E P x) :
    Yields E (fun a => P a ∧ x = .ok a) x := by
  cases x with
  | error e => exact inner
  | ok a => exact ⟨inner, rfl⟩

def Ends (E : ParseError → Prop) (Q : α → σ → Prop) (x : Except ParseError (α × σ)) : Prop :=
  Yields E (fun p => Q p.1 p.2) x

namespace Ends

variable {σ α β : Type} {E : ParseError → Prop} {s : σ} {Q Q' : α → σ → Prop} {R : β → σ → Prop}

theorem bind {m} {f : α → StateT σ (Except ParseError) β} (first : Ends E Q (m.run s))
    (next : ∀ a t, Q a t → Ends E R ((f a).run t)) : Ends E R ((m >>= f).run s) := by
  rw [StateT.run_bind]
  cases ran : m.run s with
  | error e =>
    rw [ran] at first
    exact first
  | ok result =>
    rw [ran] at first
    exact next result.1 result.2 first

theorem map {m : StateT σ (Except ParseError) α} {f : α → β} (inner : Ends E Q (m.run s))
    (same : ∀ a t, Q a t → R (f a) t) : Ends E R ((f <$> m).run s) := by
  rw [map_eq_pure_bind]
  exact bind inner same

theorem lift {x} {P : α → Prop} (inner : Yields E P x) :
    Ends E (fun a t => P a ∧ t = s) ((liftM x : StateT σ (Except ParseError) α).run s) := by
  cases x with
  | error e => exact inner
  | ok a => exact ⟨inner, rfl⟩

theorem ite {c : Prop} [Decidable c] {m n : StateT σ (Except ParseError) α} (yes : c → Ends E Q (m.run s))
    (no : ¬c → Ends E Q (n.run s)) : Ends E Q ((if c then m else n).run s) := by
  split
  · exact yes ‹_›
  · exact no ‹_›

theorem mono {x} (inner : Ends E Q x) (weaker : ∀ a t, Q a t → Q' a t) : Ends E Q' x :=
  Yields.mono inner fun p => weaker p.1 p.2

theorem of_ok {x a} (ends : Ends E Q x) (ran : x = .ok (a, s)) : Q a s := by
  subst ran
  exact ends

theorem faultless {x} (ends : Ends E Q x) : Ends (fun _ => True) Q x := by
  cases x with
  | error => trivial
  | ok => exact ends

theorem always {x : Except ParseError (α × σ)} : Ends (fun _ => True) (fun _ _ => True) x := by
  cases x <;> trivial

end Ends

/-! ### Balanced code -/

namespace Balanced

open Cursor

/-- The place where a frame began lies between `o` and `c`. -/
def Frame.Began (o c : Cursor) : Frame → Prop
  | .quoted _ start | .blockComment start => ∃ a, o.Leads a ∧ a.Leads c ∧ a.pos = start
  | _ => True

section

variable {o c d : Cursor} {goal : Goal} {frames frames' : List Frame} {f : Frame} {x : Char} {rest : List Char}
  {pos : Nat}

theorem Frame.Began.later (began : f.Began o c) (leads : c.Leads d) : f.Began o d := by
  cases f with
  | quoted quote start | blockComment start =>
    obtain ⟨a, before, behind, same⟩ := began
    exact ⟨a, before, behind.trans leads, same⟩
  | bracket | template | lineComment => trivial

theorem utf8Size_closing (closing : isClosing x = true) : x.utf8Size = 1 := by
  rcases isClosing_cases closing with (rfl | rfl) | rfl <;> rfl

/-- The frames that a step leads into began between `o` and `c`, and a fault lies behind `o`. -/
def Step.Fits (o c : Cursor) : Step → Prop
  | .stop => True
  | .one frames | .two frames => ∀ f ∈ frames, f.Began o c
  | .fail error => o.Locates error

theorem closeStep_fits (before : o.Leads ⟨x :: rest, pos⟩) (began : ∀ f ∈ frames, f.Began o ⟨x :: rest, pos⟩)
    (closing : isClosing x = true) : (closeStep goal frames pos x).Fits o ⟨x :: rest, pos⟩ := by
  have byte := reaches_byte before (utf8Size_closing closing)
  unfold closeStep
  split
  · split
    · exact (List.forall_mem_cons.1 began).2
    · exact ⟨byte, trivial⟩
  · exact ⟨byte, trivial⟩

theorem codeStep_fits (before : o.Leads ⟨x :: rest, pos⟩) (began : ∀ f ∈ frames, f.Began o ⟨x :: rest, pos⟩)
    (next : Option Char) : (codeStep goal frames pos x next).Fits o ⟨x :: rest, pos⟩ := by
  have opens : ∀ f : Frame, f.Began o ⟨x :: rest, pos⟩ → ∀ g ∈ f :: frames, g.Began o ⟨x :: rest, pos⟩ :=
    fun f here => List.forall_mem_cons.2 ⟨here, began⟩
  have here : ∃ a : Cursor, o.Leads a ∧ a.Leads ⟨x :: rest, pos⟩ ∧ a.pos = pos := ⟨_, before, .refl _, rfl⟩
  unfold codeStep
  split
  · exact opens .lineComment trivial
  split
  · exact opens (.blockComment pos) here
  split
  · exact opens (.quoted x pos) here
  split
  · exact opens .template trivial
  split
  · exact closeStep_fits before began ‹_›
  split
  · exact opens (.bracket _) trivial
  · exact began

theorem templateStep_fits {outer} (began : ∀ f ∈ outer, f.Began o c) (next : Option Char) :
    (templateStep outer x next).Fits o c := by
  have inside : ∀ f ∈ Frame.template :: outer, f.Began o c := List.forall_mem_cons.2 ⟨trivial, began⟩
  unfold templateStep
  split
  · exact inside
  split
  · exact began
  split
  · exact List.forall_mem_cons.2 ⟨trivial, inside⟩
  · exact inside

theorem quotedStep_fits {quote start outer} (began : ∀ f ∈ Frame.quoted quote start :: outer, f.Began o c)
    (next : Option Char) : (quotedStep quote start outer c.pos x next).Fits o c := by
  obtain ⟨⟨a, before, behind, same⟩, outside⟩ := List.forall_mem_cons.1 began
  unfold quotedStep
  split
  · exact began
  split
  · exact ⟨same ▸ before.reaches behind, trivial⟩
  split
  · exact outside
  · exact began

theorem step_fits (before : o.Leads ⟨x :: rest, pos⟩) (began : ∀ f ∈ frames, f.Began o ⟨x :: rest, pos⟩) :
    (step goal frames pos x rest).Fits o ⟨x :: rest, pos⟩ := by
  match frames with
  | [] =>
    rw [step]
    split
    · trivial
    · exact codeStep_fits before began _
  | .bracket close :: outer => exact codeStep_fits before began _
  | .template :: outer => exact templateStep_fits (List.forall_mem_cons.1 began).2 _
  | .quoted quote start :: outer => exact quotedStep_fits began _
  | .lineComment :: outer | .blockComment _ :: outer =>
    rw [step]
    split
    · exact (List.forall_mem_cons.1 began).2
    · exact began

theorem locates_atEnd (opening : o.Reaches goal.opening) (began : ∀ f ∈ frames, f.Began o c) :
    o.Locates (atEnd goal frames c.pos) := by
  match frames with
  | .quoted _ start :: _ | .blockComment start :: _ =>
    obtain ⟨a, before, behind, same⟩ := (List.forall_mem_cons.1 began).1
    exact ⟨same ▸ before.reaches behind, trivial⟩
  | [] | .bracket _ :: _ | .template :: _ | .lineComment :: _ => exact ⟨opening, trivial⟩

theorem scan_ends {frames pos rest} (before : o.Leads ⟨rest, pos⟩) (opening : o.Reaches goal.opening)
    (began : ∀ f ∈ frames, f.Began o ⟨rest, pos⟩) :
    Yields o.Locates (fun stop => Leads ⟨rest, pos⟩ stop ∧ goal.close.isPrefixOf stop.rest)
      (scan goal frames pos rest) := by
  match rest with
  | [] => exact locates_atEnd (c := ⟨[], pos⟩) opening began
  | x :: rest =>
    have fits : (step goal frames pos x rest).Fits o ⟨x :: rest, pos⟩ := step_fits before began
    have first := (passes_cons x rest pos).leads
    cases decided : step goal frames pos x rest with
    | stop =>
      rw [scan_stop decided]
      exact ⟨.refl _, (step_stop decided).2⟩
    | fail error =>
      rw [decided] at fits
      rw [scan_fail decided]
      exact fits
    | one frames' =>
      rw [decided] at fits
      rw [scan_one decided]
      have later := scan_ends (before.trans first) opening fun f mem => (fits f mem).later first
      exact later.mono fun stop found => ⟨first.trans found.1, found.2⟩
    | two frames' =>
      rw [decided] at fits
      cases rest with
      | nil =>
        unfold scan
        rw [decided]
        exact locates_atEnd (c := ⟨[], pos + x.utf8Size⟩) opening fun f mem => (fits f mem).later first
      | cons y rest =>
        have both := first.trans (passes_cons y rest _).leads
        rw [scan_two decided]
        have later := scan_ends (before.trans both) opening fun f mem => (fits f mem).later both
        exact later.mono fun stop found => ⟨both.trans found.1, found.2⟩
termination_by rest.length

theorem find_ends (goal : Goal) (before : o.Leads c) (opening : o.Reaches goal.opening) :
    Yields o.Locates (fun stop => c.Leads stop ∧ goal.close.isPrefixOf stop.rest) (find goal c) :=
  scan_ends before opening (by simp)

end

end Balanced

/-! ### What has a span -/

namespace Outline

/-- What has a span inside a line: a mark or a name, or code. -/
inductive Mark where
  | place (span : Span)
  | code (code : Code)

namespace Mark

def span : Mark → Span
  | .place s => s
  | .code c => c.span

/-- The span covers something between `c` and `d`, and code is what it covers. -/
def Stands (c d : Cursor) : Mark → Prop
  | .place s => ∃ text, c.Covers d s text
  | .code k => ∃ text, c.Covers d k.span text ∧ k = Code.ofList text k.span

theorem Stands.widen {a b c d : Cursor} {m : Mark} (stands : m.Stands c d) (before : a.Leads c) (behind : d.Leads b) :
    m.Stands a b := by
  cases m with
  | place s =>
    obtain ⟨text, covers⟩ := stands
    exact ⟨text, covers.widen before behind⟩
  | code k =>
    obtain ⟨text, covers, same⟩ := stands
    exact ⟨text, covers.widen before behind, same⟩

theorem stands_place {c d} (leads : c.Leads d) : (place ⟨c.pos, d.pos⟩).Stands c d := by
  obtain ⟨text, passes⟩ := leads
  exact ⟨text, c, d, .refl c, passes, .refl d, rfl⟩

end Mark

def marksOfFragment : Fragment → List Mark
  | .static _ => []
  | .dynamic code | .reactive code => [.code code]

def Value.mark : Value → Mark
  | .text _ s => .place s
  | .code c => .code c

def Attribute.marked (a : Attribute) : List Mark :=
  .place a.span :: (a.modifiers.map fun m => .place m.2) ++ a.value.toList.map Value.mark

def Shorthand.marked : Shorthand → List Mark
  | .id _ s => [.place s]
  | .className fragment s => .place s :: marksOfFragment fragment

/-! ### Parts of a line -/

/-- Reading a part leads on from `c` to `d`, and `marks` stand in between. The part is `good`, and something is passed
if it is `long`. -/
structure Part (c : Cursor) (marks : List Mark) (good : Prop) (long : Bool) (d : Cursor) : Prop where
  leads : c.Leads d
  stands : ∀ k ∈ marks, k.Stands c d
  good : good
  moves : long = true → c.pos < d.pos

/-- What the reader gives is such a part, and its faults lie behind `o`. -/
def Tracks (o : Cursor) (marks : α → List Mark) (good : α → Prop) (long : α → Bool) (m : Read α) : Prop :=
  ∀ c, o.Leads c → Ends o.Locates (fun a d => Part c (marks a) (good a) (long a) d) (m.run c)

section

open Cursor

variable {o c d e : Cursor} {α β : Type}

theorem run_get (f : Cursor → Read β) : (get >>= f).run c = (f c).run c := rfl

theorem run_peek (f : Option Char → Read β) : (Read.peek >>= f).run c = (f c.peek?).run c := rfl

theorem run_pos (f : Nat → Read β) : (Read.pos >>= f).run c = (f c.pos).run c := rfl

theorem fail_ends (before : o.Leads c) {expected} (inner : expected.isInner = true) {Q : α → Cursor → Prop} :
    Ends o.Locates Q ((Read.fail expected : Read α).run c) := locates_unexpectedAt before inner

theorem takeWhile_ends {E : ParseError → Prop} (p : Char → Bool) :
    Ends E (fun text d => text = c.rest.takeWhile p ∧ c.Passes text d) ((Read.takeWhile p).run c) :=
  ⟨rfl, passes_dropWhile c p⟩

theorem pos_lt_of_takeWhile {p : Char → Bool} (first : c.peek?.any p = true)
    (passes : c.Passes (c.rest.takeWhile p) d) :
    c.pos < d.pos := by
  obtain ⟨rest, pos⟩ := c
  cases rest with
  | nil => cases first
  | cons x rest =>
    rw [List.takeWhile_cons_of_pos (p := p) first] at passes
    exact passes.pos_lt

inductive Accepted (c : Cursor) (literal : List Char) : Bool → Cursor → Prop where
  | passed {d : Cursor} (passes : c.Passes literal d) : Accepted c literal true d
  | missing (absent : literal.isPrefixOf c.rest = false) : Accepted c literal false c

theorem accept_ends {E : ParseError → Prop} (literal : List Char) :
    Ends E (Accepted c literal) ((Read.accept literal).run c) := by
  unfold Read.accept
  rw [run_get]
  unfold Cursor.skipLiteral?
  by_cases present : literal.isPrefixOf c.rest = true
  · rw [if_pos present]
    obtain ⟨behind, split⟩ := List.isPrefixOf_iff_prefix.1 present
    have passes := passes_skip c literal.length
    rw [← split, List.take_left] at passes
    exact .passed passes
  · rw [if_neg present]
    exact .missing (Bool.not_eq_true _ ▸ present)

theorem accept_leads {E : ParseError → Prop} (literal : List Char) :
    Ends E (fun _ d => c.Leads d) ((Read.accept literal).run c) := by
  refine (accept_ends literal).mono fun found d tried => ?_
  cases tried with
  | passed passes => exact passes.leads
  | missing => exact .refl c

section

variable {read : Read (Option α)} {marks : α → List Mark} {P : α → Prop} {long : Option α → Bool}
  (each : Tracks o (fun a => a.toList.flatMap marks) (fun a => ∀ x ∈ a, P x) long read)

include each

theorem go_tracks (n : Nat) :
    Tracks o (fun as => as.flatMap marks) (fun as => ∀ a ∈ as, P a) (fun _ => false) (Read.many.go read n) := by
  induction n with
  | zero => exact fun c before => ⟨.refl c, by simp, by simp, nofun⟩
  | succ n ih =>
    intro c before
    refine (each c before).bind fun found d first => ?_
    cases found with
    | none => exact ⟨first.leads, by simp, by simp, nofun⟩
    | some a =>
      refine (ih d (before.trans first.leads)).bind fun rest e others => ?_
      refine ⟨first.leads.trans others.leads, fun k mem => ?_, List.forall_mem_cons.2 ⟨first.good a rfl, others.good⟩,
        nofun⟩
      have split : k ∈ marks a ++ rest.flatMap marks := mem
      rcases List.mem_append.1 split with here | there
      · exact (first.stands k (by simpa using here)).widen (.refl c) others.leads
      · exact (others.stands k there).widen first.leads (.refl e)

theorem many_tracks :
    Tracks o (fun as => as.flatMap marks) (fun as => ∀ a ∈ as, P a) (fun _ => false) (Read.many read) :=
  fun c before => go_tracks each (c.rest.length + 1) c before

end

theorem name_tracks {expected} (inner : expected.isInner = true) :
    Tracks o (fun _ => []) IsName (fun _ => true) (name expected) := by
  intro c before
  unfold name
  rw [run_peek]
  refine Ends.ite (fun start => ?_) fun _ => fail_ends before inner
  refine (takeWhile_ends isNamePart).bind fun text d taken => ?_
  obtain ⟨rfl, passes⟩ := taken
  refine ⟨passes.leads, by simp, named_takeWhile start isNamePart_of_start, fun _ => pos_lt_of_takeWhile ?_ passes⟩
  exact (Option.any_eq_true _ _).2
    (((Option.any_eq_true _ _).1 start).imp fun x => And.imp_right (isNamePart_of_start x))

theorem delimited_tracks {close what} (closing : Balanced.isClosing close = true) :
    Tracks o (fun k => [.code k]) (Code.Bracketed close) (fun _ => false) (delimited close what) := by
  intro c before
  have opened := leads_next c
  have found := Balanced.find_ends ⟨[close], what, ⟨c.pos, c.next.pos⟩⟩ (before.trans opened)
    (before.reaches opened)
  unfold delimited
  rw [run_get]
  refine (Ends.lift found.self).bind fun stop _ done => ?_
  obtain ⟨⟨⟨⟨text, passes⟩, -⟩, ran⟩, -⟩ := done
  have closed : stop.Leads (stop.skip 1) := (passes_skip stop 1).leads
  refine ⟨opened.trans (passes.leads.trans closed), List.forall_mem_singleton.2 ⟨text, ?_, ?_⟩, ?_, nofun⟩
  · exact ⟨c.next, stop, opened, passes, closed, rfl⟩
  · rw [passes.upTo]
    rfl
  · exact ofList_cut closing rfl ran rfl fun _ => List.mem_singleton.2 rfl

theorem className_tracks : Tracks o marksOfFragment (fun f => ∀ span, (Shorthand.className f span).WellFormed)
    (fun _ => false) className := by
  intro c before
  unfold className
  refine (accept_leads [':']).bind fun reactive d here => ?_
  refine Ends.ite (fun _ => ?_) fun _ => ?_
  · rw [run_peek]
    refine Ends.ite (fun _ => ?_) fun _ => fail_ends (before.trans here) rfl
    refine (delimited_tracks rfl d (before.trans here)).bind fun code e cut => ?_
    exact ⟨here.trans cut.leads, fun k mem => (cut.stands k mem).widen here (.refl e), fun _ => cut.good, nofun⟩
  · rw [run_peek]
    refine Ends.ite (fun _ => ?_) fun _ => ?_
    · refine (delimited_tracks rfl d (before.trans here)).bind fun code e cut => ?_
      exact ⟨here.trans cut.leads, fun k mem => (cut.stands k mem).widen here (.refl e), fun _ => cut.good, nofun⟩
    · refine (takeWhile_ends _).bind fun text e taken => ?_
      have there := here.trans taken.2.leads
      refine Ends.ite (fun _ => fail_ends (before.trans there) rfl) fun some => ?_
      refine ⟨there, by simp [marksOfFragment], fun _ => named_of_parts (by simpa using some) ?_, nofun⟩
      exact taken.1 ▸ List.all_eq_true.1 List.all_takeWhile

theorem shorthand?_tracks : Tracks o (fun s => s.toList.flatMap Shorthand.marked) (fun s => ∀ x ∈ s, x.WellFormed)
    Option.isSome shorthand? := by
  intro c before
  unfold shorthand?
  rw [run_pos]
  refine (accept_ends ['#']).bind fun isId d tried => ?_
  cases tried with
  | passed passes =>
    refine (name_tracks rfl d (before.trans passes.leads)).bind fun text e named => ?_
    have there := passes.leads.trans named.leads
    refine ⟨there, List.forall_mem_singleton.2 (Mark.stands_place there), ?_, fun _ => ?_⟩
    · exact fun x mem => Option.mem_some.1 mem ▸ named.good
    · exact Nat.lt_trans passes.pos_lt (named.moves rfl)
  | missing =>
    refine (accept_ends ['.']).bind fun isClass e tried => ?_
    cases tried with
    | missing => exact ⟨.refl _, by simp, by simp, nofun⟩
    | passed passes =>
      refine (className_tracks e (before.trans passes.leads)).bind fun fragment f cut => ?_
      have there := passes.leads.trans cut.leads
      have marks : ∀ k ∈ (Shorthand.className fragment ⟨c.pos, f.pos⟩).marked, k.Stands c f :=
        List.forall_mem_cons.2 ⟨Mark.stands_place there, fun k mem => (cut.stands k mem).widen passes.leads (.refl f)⟩
      refine ⟨there, by simpa using marks, fun x mem => Option.mem_some.1 mem ▸ cut.good _, fun _ => ?_⟩
      exact Nat.lt_of_lt_of_le passes.pos_lt cut.leads.pos_le

/-! ### Attributes -/

theorem stringBody?_leads {pos rest text stop} (found : stringBody? pos rest = some (text, stop)) :
    Leads ⟨rest, pos⟩ stop ∧ IsStringText text := by
  fun_induction stringBody? pos rest generalizing text stop with
  | case1 => cases found
  | case2 => cases found
  | case3 pos rest =>
    cases found
    exact ⟨(passes_cons '"' rest pos).leads, .nil⟩
  | case4 => cases found
  | case5 pos x rest _ _ ih =>
    obtain ⟨⟨body, stop⟩, read, same⟩ := Option.map_eq_some_iff.1 found
    obtain ⟨escaped, rfl⟩ := Prod.mk.inj same
    obtain ⟨later, inner⟩ := ih read
    refine ⟨((passes_cons '\\' (x :: rest) pos).leads.trans (passes_cons x rest _).leads).trans later, ?_⟩
    by_cases mark : (x = '"' || x = '\\') = true
    · rw [if_pos mark] at escaped
      subst escaped
      refine .cons ?_ inner
      rintro rfl
      simp at mark
    · rw [if_neg mark] at escaped
      subst escaped
      by_cases broken : x = '\n'
      · subst broken
        exact .feed inner
      · exact .cons (by decide) (.cons broken inner)
  | case6 pos x rest _ _ _ ih =>
    obtain ⟨⟨body, stop⟩, read, same⟩ := Option.map_eq_some_iff.1 found
    cases same
    obtain ⟨later, inner⟩ := ih read
    exact ⟨(passes_cons x rest pos).leads.trans later, .cons ‹_› inner⟩

theorem stringLiteral_tracks : Tracks o (fun v => [v.mark]) Value.WellFormed (fun _ => false) stringLiteral := by
  intro c before
  have opened := leads_next c
  unfold stringLiteral
  rw [run_get]
  dsimp only
  cases found : stringBody? c.next.pos c.next.rest with
  | none => exact ⟨before.reaches opened, trivial⟩
  | some result =>
    obtain ⟨text, stop⟩ := result
    obtain ⟨behind, fine⟩ := stringBody?_leads found
    have there : c.Leads stop := opened.trans behind
    exact ⟨there, List.forall_mem_singleton.2 (Mark.stands_place there), by simpa [Value.WellFormed] using fine, nofun⟩

theorem value_tracks : Tracks o (fun v => [v.mark]) Value.WellFormed (fun _ => false) value := by
  intro c before
  unfold value
  rw [run_peek]
  cases c.peek? with
  | none => exact fail_ends before rfl
  | some x =>
    refine Ends.ite (fun _ => stringLiteral_tracks c before) fun _ => ?_
    refine Ends.ite (fun _ => ?_) fun _ => ?_
    · exact (delimited_tracks rfl c before).bind fun code d cut => ⟨cut.leads, cut.stands, cut.good, nofun⟩
    refine Ends.ite (fun _ => ?_) fun _ => fail_ends before rfl
    rw [run_pos]
    refine (takeWhile_ends _).bind fun text d taken => ?_
    have code : (Mark.code (Code.ofList text ⟨c.pos, d.pos⟩)).Stands c d :=
      ⟨text, ⟨c, d, .refl c, taken.2, .refl d, rfl⟩, rfl⟩
    refine ⟨taken.2.leads, List.forall_mem_singleton.2 code, ofList_identifier ?_, nofun⟩
    exact taken.1 ▸ List.all_eq_true.1 List.all_takeWhile

theorem modifier?_tracks : Tracks o (fun m => m.toList.flatMap fun m => [Mark.place m.2]) (fun m => ∀ x ∈ m, IsName x.1)
    Option.isSome modifier? := by
  intro c before
  unfold modifier?
  refine (accept_ends ['|']).bind fun given d tried => ?_
  cases tried with
  | missing => exact ⟨.refl _, by simp, by simp, nofun⟩
  | passed passes =>
    have first := passes.leads
    rw [if_pos rfl, run_pos]
    refine (name_tracks rfl d (before.trans first)).bind fun text e named => ?_
    refine ⟨first.trans named.leads,
      List.forall_mem_singleton.2 ((Mark.stands_place named.leads).widen first (.refl e)), ?_,
      fun _ => Nat.lt_trans passes.pos_lt (named.moves rfl)⟩
    exact fun x mem => Option.mem_some.1 mem ▸ named.good

def Sigil.isReceiver : Sigil → Bool
  | .receiver _ => true
  | _ => false

theorem sigil_tracks :
    Tracks o (fun _ => []) (fun g => ∀ kind, g = .receiver kind → IsName kind) Sigil.isReceiver sigil := by
  intro c before
  unfold sigil
  refine (accept_leads ['@']).bind fun event d first => ?_
  refine Ends.ite (fun _ => ⟨first, by simp, by simp, nofun⟩) fun _ => ?_
  refine (accept_leads ['!']).bind fun sync d second => ?_
  have here := first.trans second
  refine Ends.ite (fun _ => ⟨here, by simp, by simp, nofun⟩) fun _ => ?_
  refine (accept_leads [':']).bind fun reactive d third => ?_
  have here := here.trans third
  refine Ends.ite (fun _ => ⟨here, by simp, by simp, nofun⟩) fun _ => ?_
  refine (accept_leads ['(']).bind fun receiver d fourth => ?_
  have here := here.trans fourth
  refine Ends.ite (fun _ => ?_) fun _ => ⟨here, by simp, by simp, nofun⟩
  refine (name_tracks rfl d (before.trans here)).bind fun kind e named => ?_
  have behind := here.trans named.leads
  refine (accept_leads [')']).bind fun closed f last => ?_
  refine Ends.ite (fun _ => ⟨behind.trans last, by simp, ?_, fun _ => ?_⟩) fun _ =>
    fail_ends (before.trans (behind.trans last)) rfl
  · rintro _ ⟨⟩
    exact named.good
  · exact Nat.lt_of_le_of_lt here.pos_le (Nat.lt_of_lt_of_le (named.moves rfl) last.pos_le)

theorem attributeEnd_tracks {g text modifiers} (before : o.Leads c) (here : c.Leads d)
    (given : ∀ m ∈ modifiers, (Mark.place m.2).Stands c d) (moved : c.pos < d.pos)
    (fine : ∀ value span, (∀ v ∈ value, v.WellFormed) → (Attribute.mk g text modifiers value span).WellFormed) :
    Ends o.Locates (fun a e => Part c a.marked a.WellFormed true e) ((attributeEnd c.pos g text modifiers).run d) := by
  -- What follows once the value, if there is one, is read.
  have ending : ∀ (value : Option Value) e, d.Leads e → (∀ v ∈ value, v.mark.Stands c e ∧ v.WellFormed) →
      Ends o.Locates (fun a e => Part c a.marked a.WellFormed true e)
        ((do return ⟨g, text, modifiers, value, ← Read.spanFrom c.pos⟩ : Read Attribute).run e) := by
    intro value e there shown
    refine ⟨here.trans there, List.forall_mem_append.2 ⟨List.forall_mem_cons.2 ⟨?_, ?_⟩, ?_⟩,
      fine _ _ fun v mem => (shown v mem).2, fun _ => Nat.lt_of_lt_of_le moved there.pos_le⟩
    · exact Mark.stands_place (here.trans there)
    · exact List.forall_mem_map.2 fun m mem => (given m mem).widen (.refl c) there
    · exact List.forall_mem_map.2 fun v mem => (shown v (Option.mem_toList.1 mem)).1
  unfold attributeEnd
  refine (accept_leads ['=']).bind fun equals e first => ?_
  refine Ends.ite (fun _ => ?_) fun _ => ?_
  · have read := value_tracks e (before.trans (here.trans first))
    have optional : Ends o.Locates (fun (v : Option Value) f => e.Leads f ∧ ∀ w ∈ v, w.mark.Stands e f ∧ w.WellFormed)
        ((some <$> value).run e) := read.map fun v f shown => ⟨shown.leads, fun w mem =>
          Option.mem_some.1 mem ▸ ⟨shown.stands _ (List.mem_singleton.2 rfl), shown.good⟩⟩
    refine optional.bind fun v f shown => ?_
    refine ending v f (first.trans shown.1) fun w mem => ?_
    exact (shown.2 w mem).imp_left fun stands => stands.widen (here.trans first) (.refl f)
  · exact ending none e first (by simp)

theorem singleAttribute_tracks : Tracks o Attribute.marked Attribute.WellFormed (fun _ => true) singleAttribute := by
  intro c before
  unfold singleAttribute
  rw [run_pos]
  refine (sigil_tracks c before).bind fun g d first => ?_
  have named (plain : g.isReceiver = false) : Ends o.Locates (fun a e => Part c a.marked a.WellFormed true e)
      ((do
        let text ← name .attributeName
        attributeEnd c.pos g text (← Read.many modifier?) : Read Attribute).run d) := by
    refine (name_tracks rfl d (before.trans first.leads)).bind fun text e named => ?_
    have here := first.leads.trans named.leads
    refine (many_tracks modifier?_tracks e (before.trans here)).bind fun modifiers f given => ?_
    refine attributeEnd_tracks before (here.trans given.leads) (fun m mem => ?_) ?_ fun _ _ values => ⟨?_, values⟩
    · exact (given.stands _ (List.mem_flatMap.2 ⟨m, mem, List.mem_singleton.2 rfl⟩)).widen here (.refl f)
    · exact Nat.lt_of_le_of_lt first.leads.pos_le (Nat.lt_of_lt_of_le (named.moves rfl) given.leads.pos_le)
    · cases g with
      | receiver => cases plain
      | _ => exact ⟨named.good, given.good⟩
  cases g with
  | receiver kind =>
    exact attributeEnd_tracks before first.leads (by simp) (first.moves rfl) fun _ _ values =>
      ⟨⟨first.good kind rfl, rfl, rfl⟩, values⟩
  | plain | reactive | event | sync => exact named rfl

theorem nextAttribute?_tracks {opening} (opened : o.Reaches opening) :
    Tracks o (fun a => a.toList.flatMap Attribute.marked) (fun a => ∀ x ∈ a, x.WellFormed) (fun _ => false)
      (nextAttribute? opening) := by
  intro c before
  unfold nextAttribute?
  refine (takeWhile_ends _).bind fun _ d taken => ?_
  have here := taken.2.leads
  rw [run_peek]
  cases d.peek? with
  | none => exact ⟨opened, trivial⟩
  | some x =>
    refine (accept_leads [')']).bind fun closed e behind => ?_
    have there := here.trans behind
    refine Ends.ite (fun _ => ⟨there, by simp, by simp, nofun⟩) fun _ => ?_
    refine (singleAttribute_tracks e (before.trans there)).map fun a f read => ?_
    exact ⟨there.trans read.leads, fun k mem => (read.stands k (by simpa using mem)).widen there (.refl f),
      fun x mem => Option.mem_some.1 mem ▸ read.good, nofun⟩

theorem attributes_tracks : Tracks o (fun as => as.flatMap Attribute.marked) (fun as => ∀ a ∈ as, a.WellFormed)
    (fun _ => false) attributes := by
  intro c before
  unfold attributes
  rw [run_pos]
  refine (accept_ends ['(']).bind fun given d first => ?_
  cases first with
  | missing => exact ⟨.refl c, by simp, by simp, nofun⟩
  | passed passes =>
    have opened : o.Reaches ⟨c.pos, c.pos + 1⟩ := by
      have covered := before.reaches passes.leads
      rwa [passes.pos] at covered
    refine (many_tracks (nextAttribute?_tracks opened) d (before.trans passes.leads)).mono fun as e read => ?_
    exact ⟨passes.leads.trans read.leads, fun k mem => (read.stands k mem).widen passes.leads (.refl e),
      read.good, nofun⟩

/-! ### Text -/

def TextStep.marked : TextStep → List Mark
  | .chars _ => []
  | .code fragment => marksOfFragment fragment

theorem interpolation_ends (before : o.Leads c) (braces : ['{', '{'].isPrefixOf c.rest = true) :
    Ends o.Locates (fun f d => Part c (marksOfFragment f) f.Interpolates true d) (interpolation.run c) := by
  unfold interpolation interpolationFrom
  rw [run_pos]
  refine (accept_ends ['{', '{']).bind fun opened d first => ?_
  cases first with
  | missing absent =>
    rw [absent] at braces
    cases braces
  | passed passes =>
    refine (accept_leads [':']).bind fun reactive inner second => ?_
    have here := passes.leads.trans second
    have opening : o.Reaches ⟨c.pos, c.pos + 2⟩ := by
      have covered := before.reaches passes.leads
      rwa [passes.pos] at covered
    rw [run_get]
    dsimp only
    have found := Balanced.find_ends ⟨['}', '}'], .interpolation, ⟨c.pos, c.pos + 2⟩⟩ (before.trans here) opening
    cases ended : Balanced.find ⟨['}', '}'], .interpolation, ⟨c.pos, c.pos + 2⟩⟩ inner with
    | error e =>
      rw [ended] at found
      cases e with
      | unterminated => exact ⟨opening, trivial⟩
      | _ => exact found
    | ok stop =>
      rw [ended] at found
      obtain ⟨⟨text, cut⟩, -⟩ := found
      have closed : stop.Leads (stop.skip 2) := (passes_skip stop 2).leads
      have there := cut.leads.trans closed
      refine Ends.bind (Q := fun a t => stop = a ∧ inner = t) ⟨rfl, rfl⟩ ?_
      rintro _ _ ⟨rfl, rfl⟩
      refine Ends.ite (fun _ => ⟨opening, trivial⟩) fun whole => ?_
      refine Ends.ite (fun _ => locates_unexpectedAt (before.trans (here.trans cut.leads)) rfl) fun some => ?_
      have code : (Mark.code (Code.ofList (inner.upTo stop) ⟨inner.pos, stop.pos⟩)).Stands c (stop.skip 2) := by
        rw [cut.upTo]
        exact ⟨text, ⟨inner, stop, here, cut, closed, rfl⟩, rfl⟩
      have unbroken : '\n' ∉ inner.upTo stop := by simpa using whole
      have fine {span : Span} : (Code.ofList (inner.upTo stop) span).Interpolated := by
        refine ⟨ofList_cut rfl rfl ended rfl fun broken => absurd broken unbroken, ?_, ?_⟩
        · intro none
          exact some (trim_eq_nil.1 (by simpa [Code.ofList] using none))
        · intro broken
          exact unbroken (mem_of_mem_trim (by simpa [Code.ofList] using broken))
      refine ⟨here.trans there, ?_, ?_, fun _ => Nat.lt_of_lt_of_le passes.pos_lt (second.trans there).pos_le⟩
      · cases reactive <;> exact List.forall_mem_singleton.2 code
      · cases reactive <;> exact fine

/-- What one step through a line of text comes to: none at the end of the line, code only before two braces. -/
inductive Stepped (c : Cursor) : Option TextStep → Cursor → Prop where
  | none (ended : c.atLineEnd = true) : Stepped c none c
  | code {f : Fragment} {d : Cursor} (braces : ['{', '{'].isPrefixOf c.rest = true)
      (part : Part c (marksOfFragment f) f.Interpolates true d) : Stepped c (some (.code f)) d
  | chars {text : List Char} {d : Cursor} (leads : c.Leads d) (moves : c.pos < d.pos) (nonempty : text ≠ [])
      (whole : '\n' ∉ text) (apart : ['{', '{'].isPrefixOf d.rest = true → ∀ run, ¬endsLone (run ++ text)) :
      Stepped c (some (.chars text)) d

theorem textStep?_ends (before : o.Leads c) : Ends o.Locates (Stepped c) (textStep?.run c) := by
  unfold textStep?
  rw [run_get]
  refine Ends.ite (fun ended => .none ended) fun going => ?_
  refine (accept_ends ['\\', '{', '{']).bind fun _ d tried => ?_
  cases tried with
  | passed passes => exact .chars passes.leads passes.pos_lt (by simp) (by simp) fun _ => not_endsLone_pair
  | missing =>
  refine (accept_ends ['\\', '}', '}']).bind fun _ d tried => ?_
  cases tried with
  | passed passes =>
    exact .chars passes.leads passes.pos_lt (by simp) (by simp) fun _ run => not_endsLone_append rfl (by decide)
  | missing =>
  refine (accept_ends ['\\', '\\']).bind fun _ d tried => ?_
  cases tried with
  | passed passes =>
    exact .chars passes.leads passes.pos_lt (by simp) (by simp) fun _ run => not_endsLone_append rfl (by decide)
  | missing =>
  rw [if_neg Bool.false_ne_true]
  refine Ends.ite (fun braces => ?_) fun single => ?_
  · exact (interpolation_ends before braces).bind fun fragment d cut => .code braces cut
  · obtain ⟨rest, pos⟩ := c
    cases rest with
    | nil => exact absurd rfl going
    | cons x rest =>
      have passes := passes_cons x rest pos
      refine .chars passes.leads passes.pos_lt (by simp) (fun broken => ?_) fun braces run => not_endsLone_append rfl ?_
      · cases List.mem_singleton.1 broken
        exact going rfl
      · rintro rfl
        obtain ⟨rest, rfl⟩ := List.isPrefixOf_iff_prefix.1 braces
        exact single rfl

theorem marks_gather (run : List Char) (steps : List TextStep) :
    (gather run steps).flatMap marksOfFragment = steps.flatMap TextStep.marked := by
  induction steps generalizing run with
  | nil =>
    unfold gather
    dsimp only
    split <;> simp [marksOfFragment]
  | cons step steps ih =>
    cases step with
    | chars text => simp [gather, ih, TextStep.marked]
    | code fragment =>
      unfold gather
      split <;> simp [ih, TextStep.marked, marksOfFragment]

theorem textSteps_ends {n} (before : o.Leads c) (enough : c.rest.length < n) :
    Ends o.Locates (fun steps d => Part c (steps.flatMap TextStep.marked) (StepsFit steps) (!c.atLineEnd) d ∧
      d.atLineEnd = true ∧ (startsCode steps = true → ['{', '{'].isPrefixOf c.rest = true))
      ((Read.many.go textStep? n).run c) := by
  induction n generalizing c with
  | zero => cases enough
  | succ n ih =>
    refine (textStep?_ends before).bind fun step d stepped => ?_
    cases stepped with
    | none ended => exact ⟨⟨.refl c, by simp, trivial, by simp [ended]⟩, ended, nofun⟩
    | code braces part =>
      have shorter := Nat.lt_of_lt_of_le (part.leads.length_lt (part.moves rfl)) (Nat.le_of_lt_succ enough)
      refine (ih (before.trans part.leads) shorter).bind fun rest e read => ?_
      obtain ⟨others, ended, -⟩ := read
      refine ⟨⟨part.leads.trans others.leads, List.forall_mem_append.2 ⟨fun k mem => ?_, fun k mem => ?_⟩,
        ⟨part.good, others.good⟩, fun _ => Nat.lt_of_lt_of_le (part.moves rfl) others.leads.pos_le⟩,
          ended, fun _ => braces⟩
      · exact (part.stands k mem).widen (.refl c) others.leads
      · exact (others.stands k mem).widen part.leads (.refl e)
    | chars leads moves nonempty whole apart =>
      have shorter := Nat.lt_of_lt_of_le (leads.length_lt moves) (Nat.le_of_lt_succ enough)
      refine (ih (before.trans leads) shorter).bind fun rest e read => ?_
      obtain ⟨others, ended, code⟩ := read
      refine ⟨⟨leads.trans others.leads, fun k mem => ?_,
        ⟨nonempty, whole, fun starts => apart (code starts), others.good⟩,
        fun _ => Nat.lt_of_lt_of_le moves others.leads.pos_le⟩, ended, nofun⟩
      exact (others.stands k mem).widen leads (.refl e)

theorem textRun_ends (before : o.Leads c) :
    Ends o.Locates (fun items d => Part c (items.flatMap marksOfFragment) (IsTextLine items) (!c.atLineEnd) d ∧
      d.atLineEnd = true) (textRun.run c) := by
  unfold textRun
  refine Ends.bind (m := Read.many textStep?) (textSteps_ends before (Nat.lt_succ_self _)) fun steps d read => ?_
  obtain ⟨part, ended, -⟩ := read
  refine ⟨⟨part.leads, (marks_gather [] steps).symm ▸ part.stands, ?_, part.moves⟩, ended⟩
  exact gather_isTextLine part.good (by simp) fun _ => by simp [endsLone]

end

end Outline

end Template

end ComponentCompiler
