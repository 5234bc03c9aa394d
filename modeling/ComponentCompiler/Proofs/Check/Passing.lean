import ComponentCompiler.Proofs.Check.Answers

/-!
# Runs without errors

A check adds to the end of the log and does nothing else with it. `Does` says so, and what a check has done that logs
no error.
-/

namespace ComponentCompiler.Template.Check

/-- What was logged before decides nothing, and stays in front of what the check adds. -/
class Framed (m : Check α) : Prop where
  frame : ∀ p : Progress, ∃ (a : α) (q : Progress), ∀ log,
    m.run { p with log } = (a, { q with log := log ++ q.log })

/-- `m` goes from `p` to `q` with the result `a`, and logs warnings at most. The warnings are left out
of `q`. -/
def Passes (m : Check α) (p : Progress) (a : α) (q : Progress) : Prop :=
  q.log = p.log ∧ ∃ added : Log, m.run p = (a, { q with log := p.log ++ added }) ∧ added.hasErrors = false

/-- The check is framed, and `P` tells what it does when it passes. -/
structure Does (P : Progress → α → Progress → Prop) (m : Check α) : Prop extends Framed m where
  passes : ∀ {p a q}, Passes m p a q → P p a q

theorem eq_of_aside {p q : Progress} {l k : Log} (same : p.log = q.log)
    (aside : { p with log := l } = { q with log := k }) : p = q := by
  cases p
  cases q
  simp_all

section

variable {m : Check α} {f : α → Check β} {a : α} {b : β} {rules : List Rule} {rule : Rule}
  {span : Span} {headline : String}
  {notes : List String} {p r : Progress} {P R : Progress → α → Progress → Prop} {Q : Progress → β → Progress → Prop}
  {S : α → Prop}

theorem does_passes [framed : Framed m] : Does (Passes m) m := ⟨framed, id⟩

theorem Does.mono (h : Does P m) (weaker : ∀ {p a q}, P p a q → R p a q) : Does R m :=
  ⟨h.toFramed, fun passed => weaker (h.passes passed)⟩

theorem Answers.does (h : Answers m a rules) (holds : rules = [] → ∀ p, P p a p) : Does P m where
  frame p := by
    obtain ⟨added, -, ran⟩ := h
    exact ⟨a, { p with log := added }, fun log => ran { p with log }⟩
  passes := by
    rintro p b q ⟨same, added, ran, clean⟩
    obtain ⟨own, rfl, runs⟩ := h
    obtain ⟨rfl, after⟩ := Prod.mk.inj ((runs p).symm.trans ran)
    have logs : own = added := List.append_cancel_left (congrArg Progress.log after)
    obtain rfl := eq_of_aside same.symm after
    refine holds ?_ p
    rwa [← List.length_eq_zero_iff, Log.length_errors, ← Log.hasErrors_eq_false, logs]

theorem Does.pure (holds : ∀ p, P p a p) : Does P (pure a) := (answers_pure a).does fun _ => holds

instance framed_pure (a : α) : Framed (pure a : Check α) :=
  (Does.pure fun _ => trivial : Does (fun _ _ _ => True) _).toFramed

/-- What comes behind a check has to be framed only for the results that it can have. -/
theorem Does.bind_of {A : α → Prop} (first : Does P m) (always : ∀ p, A (m.run p).1)
    (next : ∀ a, A a → Does (fun q b r => ∀ p, P p a q → Q p b r) (f a)) : Does Q (m >>= f) := by
  have frame (p : Progress) :
      ∃ (a : α) (q : Progress), A a ∧ ∀ log, m.run { p with log } = (a, { q with log := log ++ q.log }) := by
    obtain ⟨a, q, ran⟩ := first.frame p
    exact ⟨a, q, by simpa only [ran p.log] using always p, ran⟩
  refine ⟨⟨fun p => ?_⟩, ?_⟩
  · obtain ⟨a, q, here, ran⟩ := frame p
    obtain ⟨b, r, continued⟩ := (next a here).frame q
    refine ⟨b, { r with log := q.log ++ r.log }, fun log => ?_⟩
    rw [run_bind, ran]
    simpa only [List.append_assoc] using continued (log ++ q.log)
  · rintro p b r ⟨same, added, ran, clean⟩
    obtain ⟨a, q, here, runs⟩ := frame p
    obtain ⟨b', r', continues⟩ := (next a here).frame q
    have middle : m.run p = (a, { q with log := p.log ++ q.log }) := runs p.log
    rw [run_bind, middle] at ran
    obtain ⟨rfl, after⟩ := Prod.mk.inj ((continues (p.log ++ q.log)).symm.trans ran)
    -- The two parts of the run split what was added.
    have split : added = q.log ++ r'.log := by
      have logs := congrArg Progress.log after
      rw [List.append_assoc] at logs
      exact (List.append_cancel_left logs).symm
    rw [split, Log.hasErrors_append, Bool.or_eq_false_iff] at clean
    have rest : Passes (f a) { q with log := p.log } b' r := by
      refine ⟨same, r'.log, (continues p.log).trans (congrArg (Prod.mk _) ?_), clean.2⟩
      rw [← eq_of_aside (p := { r' with log := r.log }) (q := r) rfl after, same]
    exact (next a here).passes rest p (first.passes ⟨rfl, q.log, middle, clean.1⟩)

theorem Does.bind (first : Does P m) (next : ∀ a, Does (fun q b r => ∀ p, P p a q → Q p b r) (f a)) :
    Does Q (m >>= f) :=
  first.bind_of (fun _ => trivial) fun a (_ : True) => next a

theorem Does.last {g : α → β} (inner : Does P m) (holds : ∀ {p a q}, P p a q → Q p (g a) q) :
    Does Q (m >>= fun a => Pure.pure (g a)) :=
  inner.bind fun _ => .pure fun _ _ => holds

theorem Answers.next (first : Answers m a rules) (rest : Does (fun p b q => rules = [] → Q p b q) (f a)) :
    Does Q (m >>= f) := by
  have does : Does (fun p _ q => p = q ∧ rules = []) m := first.does fun none _ => ⟨rfl, none⟩
  obtain ⟨added, -, ran⟩ := first
  refine does.bind_of (A := (· = a)) (fun p => by rw [ran]) fun b same => same ▸ rest.mono fun holds p known => ?_
  exact known.1 ▸ holds known.2

theorem Fits.next (first : Fits S rule m) (rest : ∀ a, Does (fun p b q => S a → Q p b q) (f a)) : Does Q (m >>= f) := by
  cases first with
  | fit a here answers => exact answers.next ((rest a).mono fun holds _ => holds here)
  | unfit a answers => exact answers.next ((rest a).mono fun _ none => by cases none)

theorem Finds.next {m} {T : Rule → Prop} {f : Option α → Check β} (first : Finds S T m) (stops : f none = Pure.pure b)
    (rest : ∀ a, Does (fun p b q => S a → Q p b q) (f (some a))) : Does Q (m >>= f) := by
  cases first with
  | found a sole answers => exact answers.next ((rest a).mono fun holds _ => holds ((sole a).2 rfl))
  | missing _ _ _ answers => exact answers.next (stops ▸ .pure fun _ none => by cases none)

variable {f : Unit → Check α}

theorem Does.error (rest : Does R (f ())) : Does P (Check.error rule span headline notes >>= f) :=
  answers_error.next (rest.mono fun _ none => by cases none)

theorem Does.refused : Does P (Check.error rule span headline notes >>= fun _ => Pure.pure a) :=
  .error (.pure fun _ => trivial : Does (fun _ _ _ => True) _)

theorem Does.warned (rest : Does P (f ())) : Does P (warning rule span headline >>= f) :=
  answers_warning.next (rest.mono fun holds _ => holds)

theorem Does.warned_if {c : Prop} [Decidable c] (rest : Does P (f ())) :
    Does P (if c then warning rule span headline >>= f else f ()) := by
  split
  · exact rest.warned
  · exact rest

theorem Does.modified {g : Progress → Progress} (apart : ∀ p log, g { p with log } = { g p with log })
    (rest : Does (fun q a r => ∀ p, q = g p → P p a r) (f ())) : Does P (modify g >>= f) := by
  have changed : Does (fun p _ q => q = g p) (modify g) := by
    refine ⟨⟨fun p => ⟨(), { g p with log := [] }, fun log => ?_⟩⟩, ?_⟩
    · rw [List.append_nil]
      exact congrArg (Prod.mk ()) (apart p log)
    · rintro p _ q ⟨same, added, ran, -⟩
      have kept : (g p).log = p.log := by simpa using congrArg Progress.log (apart p p.log)
      exact (eq_of_aside (kept.trans same.symm) (congrArg Prod.snd ran)).symm
  exact changed.bind fun _ => rest

theorem Does.got {f : Progress → Check α} (apart : ∀ p log, f { p with log } = f p)
    (rest : ∀ s, Does (fun p a q => p = s → P p a q) (f s)) : Does P (get >>= f) where
  frame p := by
    obtain ⟨a, q, ran⟩ := (rest p).frame p
    refine ⟨a, q, fun log => ?_⟩
    have seen : (get >>= f).run { p with log } = (f { p with log }).run { p with log } := rfl
    rw [seen, apart, ran]
  passes {p _ _} passed := (rest p).passes passed rfl

end

theorem does_foldlM {f : β → α → Check β} (Inv : List α → β → Prop)
    (step : ∀ before b x, Does (fun p c q => Inv before b → p = q ∧ Inv (before ++ [x]) c) (f b x)) (xs : List α) {b}
    (start : Inv [] b) : Does (fun p c q => p = q ∧ Inv xs c) (xs.foldlM f b) := by
  have folded :
      ∀ (xs before : List α) b, Does (fun p c q => Inv before b → p = q ∧ Inv (before ++ xs) c) (xs.foldlM f b) := by
    intro xs
    induction xs with
    | nil => exact fun before b => .pure fun _ kept => ⟨rfl, by rwa [List.append_nil]⟩
    | cons x xs ih =>
      intro before b
      rw [List.foldlM_cons]
      refine (step before b x).bind fun c => (ih (before ++ [x]) c).mono fun final p now kept => ?_
      obtain ⟨rfl, here⟩ := now kept
      rw [List.append_cons]
      exact final here
  exact (folded xs [] b).mono fun holds => holds start

end ComponentCompiler.Template.Check
