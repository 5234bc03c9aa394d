import ComponentCompiler.Proofs.Script.Lexeme
import ComponentCompiler.Script.Read

/-!
# Readers of scripts and what they take from the text

`Reads` is a class, so that it is found for a reader made of others.
-/

namespace ComponentCompiler.Script

open Text

def HasToken (o : Cursor) (token : Token) : Prop :=
  ∃ c l, o.Leads c ∧ Lexeme.read c = some l ∧ l.token = token

def HasWord (o : Cursor) (name : String) : Prop := ∃ escaped, HasToken o (.word name escaped)

def Spelled (o : Cursor) (name : String) : Prop := HasWord o name ∨ HasToken o (.string name)

/-- All spans in a value, and the keys of its object literals. -/
class HasTraces (α : Type) where
  spans : α → List Span
  keys : α → List String := fun _ => []

export HasTraces (spans keys)

section

variable {α β : Type}

instance (priority := low) traceless : HasTraces α where
  spans _ := []

instance : HasTraces Span where
  spans s := [s]

instance optional [HasTraces α] : HasTraces (Option α) :=
  ⟨fun a => a.toList.flatMap spans, fun a => a.toList.flatMap keys⟩

instance [HasTraces α] : HasTraces (List α) := ⟨fun as => as.flatMap spans, fun as => as.flatMap keys⟩

instance [HasTraces α] [HasTraces β] : HasTraces (α × β) :=
  ⟨fun p => spans p.1 ++ spans p.2, fun p => keys p.1 ++ keys p.2⟩

/-- All spans in the value lie in the text from `o` on, and all its keys are words or strings there. -/
class Placed (o : Cursor) [HasTraces α] (a : α) : Prop where
  reached : ∀ s ∈ spans a, o.Reaches s
  spelled : ∀ name ∈ keys a, Spelled o name

/-- A value that has been taken from the text. -/
structure Found (o : Cursor) (α : Type) [HasTraces α] where
  val : α
  placed : Placed o val

variable {o : Cursor}

instance [HasTraces α] (a : Found o α) : Placed o a.val := a.placed

theorem Placed.of_nil [HasTraces α] {a : α} (spanless : spans a = []) (keyless : keys a = []) : Placed o a :=
  ⟨by simp [spanless], by simp [keyless]⟩

instance (a : α) : @Placed α o traceless a := @Placed.of_nil α o traceless a rfl rfl

instance (a : Option α) : Placed o a := by
  cases a <;> exact .of_nil rfl rfl

variable [HasTraces α] [HasTraces β]

instance : Placed o (none : Option α) := .of_nil rfl rfl

theorem placed_some {a : α} : Placed o (some a) ↔ Placed o a :=
  ⟨fun found => ⟨by simpa [spans] using found.reached, by simpa [keys] using found.spelled⟩,
    fun found => ⟨by simpa [spans] using found.reached, by simpa [keys] using found.spelled⟩⟩

instance (a : α) [here : Placed o a] : Placed o (some a) := placed_some.2 here

theorem Placed.of_some {a : α} (found : Placed o (some a)) : Placed o a := placed_some.1 found

instance : Placed o ([] : List α) := .of_nil rfl rfl

theorem placed_list {as : List α} : Placed o as ↔ ∀ a ∈ as, Placed o a := by
  constructor
  · exact fun all a mem => ⟨fun s inner => all.reached s (List.mem_flatMap.2 ⟨a, mem, inner⟩),
      fun name inner => all.spelled name (List.mem_flatMap.2 ⟨a, mem, inner⟩)⟩
  · refine fun each => ⟨fun s mem => ?_, fun name mem => ?_⟩
    · obtain ⟨a, among, inner⟩ := List.mem_flatMap.1 mem
      exact (each a among).reached s inner
    · obtain ⟨a, among, inner⟩ := List.mem_flatMap.1 mem
      exact (each a among).spelled name inner

instance (a : α) (as : List α) [here : Placed o a] [rest : Placed o as] : Placed o (a :: as) :=
  placed_list.2 (List.forall_mem_cons.2 ⟨here, placed_list.1 rest⟩)

instance (a : α) (b : β) [first : Placed o a] [second : Placed o b] : Placed o (a, b) :=
  ⟨List.forall_mem_append.2 ⟨first.reached, second.reached⟩, List.forall_mem_append.2 ⟨first.spelled, second.spelled⟩⟩

theorem Placed.first {p : α × β} (both : Placed o p) : Placed o p.1 :=
  ⟨(List.forall_mem_append.1 both.reached).1, (List.forall_mem_append.1 both.spelled).1⟩

instance (p : Prop) [Decidable p] (a b : α) [first : Placed o a] [second : Placed o b] :
    Placed o (if p then a else b) := by
  split <;> assumption

instance (ps : List (α × β)) [all : Placed o ps] : Placed o (ps.map (·.1)) :=
  placed_list.2 (List.forall_mem_map.2 fun p mem => (placed_list.1 all p mem).first)

instance (f : α → β) (a : Option α) [each : ∀ a, Placed o (f a)] : Placed o (a.map f) := by
  cases a with
  | none => exact inferInstanceAs (Placed o (none : Option β))
  | some a => exact inferInstanceAs (Placed o (some (f a)))

end

def Passed (s t : Stream) : Prop :=
  ∃ c, s.current.origin.Leads c ∧ c.pos = t.lastEnd ∧ Lexeme.read c = some t.current

def Ahead (s t : Stream) : Prop := t = s ∨ Passed s t

section

variable {s t u : Stream}

theorem Ahead.refl (s : Stream) : Ahead s s := .inl rfl

theorem Passed.trans (first : Passed s t) (second : Passed t u) : Passed s u := by
  obtain ⟨c, before, -, read⟩ := first
  obtain ⟨c', before', rest⟩ := second
  exact ⟨c', before.trans ((Lexeme.read_leads read).1.trans before'), rest⟩

theorem Passed.ahead (first : Passed s t) (second : Ahead t u) : Passed s u := by
  rcases second with rfl | passed
  · exact first
  · exact first.trans passed

theorem Ahead.passed (first : Ahead s t) (second : Passed t u) : Passed s u := by
  rcases first with rfl | passed
  · exact second
  · exact passed.trans second

theorem Ahead.trans (first : Ahead s t) (second : Ahead t u) : Ahead s u := by
  rcases first with rfl | passed
  · exact second
  · exact .inr (passed.ahead second)

end

/-- What is known wherever reading stands. -/
structure Trail where
  base : Cursor
  Holds : Stream → Prop
  /-- The lexeme that is looked at was read in the text. -/
  read : ∀ {s}, Holds s → ∃ c, base.Leads c ∧ Lexeme.read c = some s.current
  stable : ∀ {s t}, Holds s → Ahead s t → Holds t

namespace Trail

def whole (base : Cursor) : Trail where
  base
  Holds s := ∃ c, base.Leads c ∧ Lexeme.read c = some s.current
  read holds := holds
  stable := by
    rintro s t ⟨c, before, read⟩ (rfl | ⟨c', first, -, read'⟩)
    · exact ⟨c, before, read⟩
    · exact ⟨c', before.trans ((Lexeme.read_leads read).1.trans first), read'⟩

variable (T : Trail) (s : Stream)

def since : Trail where
  base := T.base
  Holds t := T.Holds s ∧ Ahead s t
  read holds := T.read (T.stable holds.1 holds.2)
  stable holds on := ⟨holds.1, holds.2.trans on⟩

def past : Trail where
  base := T.base
  Holds t := T.Holds s ∧ Passed s t
  read holds := T.read (T.stable holds.1 (.inr holds.2))
  stable holds on := ⟨holds.1, holds.2.ahead on⟩

variable {T s}

theorem sound (holds : T.Holds s) : T.base.Leads s.current.origin ∧ s.current.origin.Leads s.current.after := by
  obtain ⟨c, before, read⟩ := T.read holds
  obtain ⟨behind, here, -⟩ := Lexeme.read_leads read
  exact ⟨before.trans behind, here⟩

theorem token (holds : T.Holds s) : HasToken T.base s.current.token := by
  obtain ⟨c, before, read⟩ := T.read holds
  exact ⟨c, s.current, before, read, rfl⟩

end Trail

/-- The reader leads on, and what it gives has been taken from the text. -/
class Reads (T : Trail) {α : Type} [HasTraces α] (m : Read α) : Prop where
  leads : ∀ {s a t}, T.Holds s → m.run s = some (a, t) → Ahead s t ∧ Placed T.base a

/-- The reader passes at least one lexeme. -/
class Passing (T : Trail) {α : Type} [HasTraces α] (m : Read α) : Prop where
  passes : ∀ {s a t}, T.Holds s → m.run s = some (a, t) → Passed s t ∧ Placed T.base a

section

variable {T : Trail} {α β : Type} {m n : Read α} {f : α → Read β} {p : Prop} [Decidable p]

theorem run_bind {s b u} (ran : (m >>= f).run s = some (b, u)) :
    ∃ a t, m.run s = some (a, t) ∧ (f a).run t = some (b, u) := by
  obtain ⟨⟨a, t⟩, first, second⟩ := Option.bind_eq_some_iff.1 ran
  exact ⟨a, t, first, second⟩

variable [HasTraces α] [HasTraces β]

theorem Reads.bind (first : Reads T m) (next : ∀ a, Placed T.base a → Reads T (f a)) : Reads T (m >>= f) where
  leads holds ran := by
    obtain ⟨a, t, ran₁, ran₂⟩ := run_bind ran
    obtain ⟨there, placed⟩ := first.leads holds ran₁
    obtain ⟨behind, placed'⟩ := (next a placed).leads (T.stable holds there) ran₂
    exact ⟨there.trans behind, placed'⟩

instance [Reads T m] [next : ∀ a : Found T.base α, Reads T (f a.val)] : Reads T (m >>= f) :=
  .bind inferInstance fun a placed => next ⟨a, placed⟩

theorem Reads.choose {p : α → Prop} [∀ a, Decidable (p a)] {yes no : α → Read β} (first : Reads T m)
    (then_ : ∀ a, Placed T.base a → Reads T (yes a)) (else_ : ∀ a, Placed T.base a → Reads T (no a)) :
    Reads T (m >>= fun a => if p a then yes a else no a) := by
  refine .bind first fun a placed => ?_
  split
  · exact then_ a placed
  · exact else_ a placed

theorem Reads.found {m : Read (Option α)} {f : Option α → Read β} (first : Reads T m)
    (there : ∀ a, Placed T.base a → Reads T (f (some a))) (missing : Reads T (f none)) : Reads T (m >>= f) := by
  refine .bind first fun a placed => ?_
  cases a with
  | none => exact missing
  | some a => exact there a placed.of_some

instance (a : α) [Placed T.base a] : Reads T (pure a) where
  leads _ ran := by
    cases ran
    exact ⟨.refl _, inferInstance⟩

instance [Reads T m] [Reads T n] : Reads T (if p then m else n) := by
  split <;> infer_instance

instance (priority := low) [Passing T m] : Reads T m where
  leads holds ran := (Passing.passes holds ran).imp_left .inr

theorem Passing.bind (first : Passing T m) (next : ∀ a, Placed T.base a → Reads T (f a)) : Passing T (m >>= f) where
  passes holds ran := by
    obtain ⟨a, t, ran₁, ran₂⟩ := run_bind ran
    obtain ⟨passed, placed⟩ := first.passes holds ran₁
    obtain ⟨behind, result⟩ := (next a placed).leads (T.stable holds (.inr passed)) ran₂
    exact ⟨passed.ahead behind, result⟩

instance [Passing T m] [next : ∀ a : Found T.base α, Reads T (f a.val)] : Passing T (m >>= f) :=
  .bind inferInstance fun a placed => next ⟨a, placed⟩

theorem Passing.behind [Reads T m] (next : ∀ a, Placed T.base a → Passing T (f a)) : Passing T (m >>= f) where
  passes holds ran := by
    obtain ⟨a, t, ran₁, ran₂⟩ := run_bind ran
    obtain ⟨there, placed⟩ := Reads.leads holds ran₁
    obtain ⟨passed, result⟩ := (next a placed).passes (T.stable holds there) ran₂
    exact ⟨there.passed passed, result⟩

instance (priority := low) [Reads T m] [next : ∀ a : Found T.base α, Passing T (f a.val)] : Passing T (m >>= f) :=
  .behind fun a placed => next ⟨a, placed⟩

theorem Passing.ite (then_ : Passing T m) (else_ : Passing T n) : Passing T (if p then m else n) := by
  split <;> assumption

instance [Passing T m] [Passing T n] : Passing T (if p then m else n) := .ite inferInstance inferInstance

instance : Passing T (Read.fail : Read α) where
  passes _ ran := by cases ran

end

namespace Read

section

variable {T : Trail} {α β : Type}

theorem reads_of_looking [HasTraces α] {m : Read α} (looks : ∀ s a t, m.run s = some (a, t) → t = s)
    (plain : ∀ a : α, Placed T.base a) : Reads T m where
  leads _ ran := ⟨.inl (looks _ _ _ ran), plain _⟩

instance : Reads T lexeme := reads_of_looking (fun _ _ _ ran => by cases ran; rfl) inferInstance

instance : Reads T token := reads_of_looking (fun _ _ _ ran => by cases ran; rfl) inferInstance

instance : Reads T newline := reads_of_looking (fun _ _ _ ran => by cases ran; rfl) inferInstance

instance (condition : Bool) : Reads T (require condition) := by
  unfold require
  infer_instance

instance (read : Read Bool) : Reads T (foresee read) :=
  reads_of_looking (fun _ _ _ ran => by cases ran; rfl) inferInstance

theorem resume_passes {s t c a} (behind : s.current.origin.Leads c) (ran : (resume c).run s = some (a, t)) :
    Passed s t := by
  unfold resume at ran
  split at ran
  · rename_i next read
    cases ran
    exact ⟨c, behind, rfl, read⟩
  · cases ran

instance : Passing T advance where
  passes {s _ t} holds ran :=
    ⟨resume_passes (Trail.sound holds).2 (show (resume s.current.after).run s = some (_, t) from ran), inferInstance⟩

/-- A span that is closed behind a lexeme since it was opened. -/
instance (s : Stream) : Reads (T.past s) (spanFrom s.current.origin.pos) where
  leads {t _ _} holds ran := by
    cases ran
    obtain ⟨before, c, there, last, -⟩ := holds
    refine ⟨.refl _, ⟨fun span mem => ?_, fun _ mem => by cases mem⟩⟩
    cases List.mem_singleton.1 mem
    have reached := (Trail.sound before).1.reaches there
    rwa [last] at reached

theorem reads_start [HasTraces β] {f : Nat → Read β} (next : ∀ s, Reads (T.since s) (f s.current.origin.pos)) :
    Reads T (start >>= f) where
  leads {s _ _} holds ran := (next s).leads ⟨holds, .refl s⟩ ran

theorem passing_start [HasTraces β] {f : Nat → Read β} (next : ∀ s, Passing (T.since s) (f s.current.origin.pos)) :
    Passing T (start >>= f) where
  passes {s _ _} holds ran := (next s).passes ⟨holds, .refl s⟩ ran

variable [HasTraces α] [HasTraces β] {s : Stream} {m : Read α} {f : α → Read β}

theorem passing_past (first : Passing (T.since s) m) (next : ∀ a, Placed (T.past s).base a → Reads (T.past s) (f a)) :
    Passing (T.since s) (m >>= f) where
  passes holds ran := by
    obtain ⟨a, t, ran₁, ran₂⟩ := run_bind ran
    obtain ⟨passed, placed⟩ := first.passes holds ran₁
    obtain ⟨behind, result⟩ := (next a placed).leads ⟨holds.1, holds.2.passed passed⟩ ran₂
    exact ⟨passed.ahead behind, result⟩

instance (priority := high) [Passing (T.since s) m] [next : ∀ a : Found (T.past s).base α, Reads (T.past s) (f a.val)] :
    Passing (T.since s) (m >>= f) := passing_past inferInstance fun a placed => next ⟨a, placed⟩

/-- The reader passes at least one lexeme when it gives something with `p`. -/
class PassingIf (T : Trail) {α : Type} (m : Read α) (p : α → Prop) : Prop where
  passes : ∀ {s a t}, T.Holds s → m.run s = some (a, t) → p a → Passed s t

variable {p : α → Prop} [∀ a, Decidable (p a)] {yes no : α → Read β}

theorem passing_choice [PassingIf (T.since s) m p] [Reads (T.since s) m]
    (then_ : ∀ a, Placed (T.past s).base a → Reads (T.past s) (yes a))
    (else_ : ∀ a, Placed (T.since s).base a → Passing (T.since s) (no a)) :
    Passing (T.since s) (m >>= fun a => if p a then yes a else no a) where
  passes holds ran := by
    obtain ⟨a, t, ran₁, ran₂⟩ := run_bind ran
    obtain ⟨there, placed⟩ := Reads.leads holds ran₁
    by_cases taken : p a
    · rw [if_pos taken] at ran₂
      have passed := PassingIf.passes holds ran₁ taken
      obtain ⟨behind, result⟩ := (then_ a placed).leads ⟨holds.1, holds.2.passed passed⟩ ran₂
      exact ⟨passed.ahead behind, result⟩
    · rw [if_neg taken] at ran₂
      obtain ⟨passed, result⟩ := (else_ a placed).passes ((T.since s).stable holds there) ran₂
      exact ⟨there.passed passed, result⟩

instance (priority := high) [PassingIf (T.since s) m p] [Reads (T.since s) m]
    [then_ : ∀ a : Found (T.past s).base α, Reads (T.past s) (yes a.val)]
    [else_ : ∀ a : Found (T.since s).base α, Passing (T.since s) (no a.val)] :
    Passing (T.since s) (m >>= fun a => if p a then yes a else no a) :=
  passing_choice (fun a placed => then_ ⟨a, placed⟩) fun a placed => else_ ⟨a, placed⟩

omit [HasTraces α] in
theorem attempt_run {t found} (ran : (attempt m).run s = some (found, t)) :
    found = none ∧ t = s ∨ ∃ a, found = some a ∧ m.run s = some (a, t) := by
  unfold attempt at ran
  cases tried : m s with
  | none =>
    rw [StateT.run, tried] at ran
    cases ran
    exact .inl ⟨rfl, rfl⟩
  | some result =>
    rw [StateT.run, tried] at ran
    cases ran
    exact .inr ⟨result.1, rfl, tried⟩

instance [Reads T m] : Reads T (attempt m) where
  leads holds ran := by
    rcases attempt_run ran with ⟨rfl, rfl⟩ | ⟨a, rfl, found⟩
    · exact ⟨.refl _, inferInstance⟩
    · obtain ⟨there, placed⟩ := Reads.leads holds found
      exact ⟨there, inferInstance⟩

instance [Passing T m] : PassingIf T (attempt m) fun found => found.isSome = true where
  passes holds ran some := by
    rcases attempt_run ran with ⟨rfl, rfl⟩ | ⟨a, rfl, found⟩
    · cases some
    · exact (Passing.passes holds found).1

instance [Passing T m] (b : Bool) : PassingIf T (attempt m) fun found => (b && found.isSome) = true where
  passes holds ran found := by
    have taken := (Bool.and_eq_true_iff.1 found).2
    exact PassingIf.passes (p := fun found => found.isSome = true) holds ran taken

theorem reads_many {read : Read (Option α)} (each : Reads T read) : Reads T (many read) := by
  have go (n : Nat) : Reads T (many.go read n) := by
    induction n with
    | zero => exact inferInstanceAs (Reads T fail)
    | succ n ih =>
      unfold many.go
      refine .bind inferInstance fun found _ => ?_
      split
      · infer_instance
      · rename_i a placed
        have := placed.of_some
        infer_instance
  unfold many
  infer_instance

instance {read : Read (Option α)} [Reads T read] : Reads T (many read) := reads_many inferInstance

instance {step : α → Read (Option α)} {a : α} [Placed T.base a] [each : ∀ a : Found T.base α, Reads T (step a.val)] :
    Reads T (iterate step a) := by
  have go (n : Nat) : ∀ a, Placed T.base a → Reads T (iterate.go step n a) := by
    induction n with
    | zero => exact fun a _ => inferInstanceAs (Reads T fail)
    | succ n ih =>
      intro a placed
      unfold iterate.go
      refine .bind (each ⟨a, placed⟩) fun found _ => ?_
      split
      · infer_instance
      · rename_i next placed
        exact ih next placed.of_some
  unfold iterate
  exact .bind inferInstance fun _ _ => go _ a inferInstance

end

section

variable {T : Trail} {α : Type} [HasTraces α]

instance (text : String) : Reads T (isMark text) := by
  unfold isMark
  infer_instance

instance (texts : List String) : Reads T (isOneOf texts) := by
  unfold isOneOf
  refine .bind inferInstance fun token _ => ?_
  split <;> infer_instance

instance (name : String) : Reads T (isWord name) := by
  unfold isWord
  infer_instance

instance (text : String) : Reads T (accept text) := by
  unfold accept
  infer_instance

instance (name : String) : Reads T (acceptWord name) := by
  unfold acceptWord
  infer_instance

instance (text : String) : PassingIf T (accept text) (· = true) where
  passes holds ran taken := by
    obtain ⟨asked, u, first, rest⟩ := run_bind ran
    have there := (Reads.leads holds first).1
    cases asked with
    | false =>
      cases rest
      cases taken
    | true =>
      obtain ⟨_, _, passes, done⟩ := run_bind (m := advance) rest
      cases done
      exact there.passed (Passing.passes (T.stable holds there) passes).1

instance (text : String) : Passing T (expect text) := by
  unfold expect
  infer_instance

instance (name : String) : Passing T (expectWord name) := by
  unfold expectWord
  infer_instance

instance : Reads T plainWord? := by
  unfold plainWord?
  refine .bind inferInstance fun token _ => ?_
  split <;> infer_instance

instance (read : Read Bool) : Reads T (thenHas read) := by
  unfold thenHas
  infer_instance

instance (text : String) : Reads T (thenMark text) := by
  unfold thenMark
  infer_instance

instance : Reads T semicolon := by
  unfold semicolon
  infer_instance

theorem reads_listUntil {close : String} {item : Read α} (each : Reads T item) : Reads T (listUntil close item) := by
  dsimp only [listUntil]
  infer_instance

instance (close : String) (item : Read α) [Reads T item] : Reads T (listUntil close item) :=
  reads_listUntil inferInstance

instance : Passing T anyWord := by
  unfold anyWord
  refine .behind fun token _ => ?_
  split <;> infer_instance

instance : Passing T unreserved := by
  unfold unreserved
  infer_instance

instance : Passing T bindingName := by
  unfold bindingName
  infer_instance

instance : Reads T isUnreserved := by
  unfold isUnreserved
  refine .bind inferInstance fun token _ => ?_
  split <;> infer_instance

instance : Reads T isString := by
  unfold isString
  refine .bind inferInstance fun token _ => ?_
  split <;> infer_instance

instance : Reads T expectString := by
  unfold expectString
  infer_instance

end

end Read

end ComponentCompiler.Script
