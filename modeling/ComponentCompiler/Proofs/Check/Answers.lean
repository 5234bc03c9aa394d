import ComponentCompiler.Template.Check.Outline

/-!
# What checks answer

`Answers m a rules` says that `m` gives `a` wherever it starts, and does nothing but log errors for `rules`.
-/

namespace ComponentCompiler

namespace Log

def errors (log : Log) : List Rule := (log.filter (·.isError)).map (·.rule)

@[simp] theorem errors_append (a b : Log) : errors (a ++ b) = a.errors ++ b.errors := by
  simp [errors]

theorem length_errors (log : Log) : log.errors.length = log.errorCount := by
  simp [errors, errorCount, List.countP_eq_length_filter]

@[simp] theorem hasErrors_append (a b : Log) : hasErrors (a ++ b) = (a.hasErrors || b.hasErrors) :=
  List.any_append

theorem errorCount_append (a b : Log) : errorCount (a ++ b) = a.errorCount + b.errorCount :=
  List.countP_append

theorem hasErrors_eq_false {log : Log} : log.hasErrors = false ↔ log.errorCount = 0 := by
  simp [hasErrors, errorCount, List.countP_eq_zero, List.any_eq_false]

end Log

namespace Template

namespace Check

theorem run_bind (m : Check α) (f : α → Check β) (p : Progress) :
    (m >>= f).run p = (f (m.run p).1).run (m.run p).2 := rfl

/-- The check gives `a` wherever it starts. It does nothing but log, and the errors among that are about `rules`. -/
def Answers (m : Check α) (a : α) (rules : List Rule) : Prop :=
  ∃ added : Log, added.errors = rules ∧ ∀ p, m.run p = (a, { p with log := p.log ++ added })

/-- The check gives the one thing that is `P`, or nothing and one error, since nothing is. -/
inductive Finds (P : α → Prop) (S : Rule → Prop) (m : Check (Option α)) : Prop where
  | found (a : α) (sole : ∀ b, P b ↔ b = a) (answers : Answers m (some a) [])
  | missing (fails : ∀ b, ¬ P b) (rule : Rule) (known : S rule) (answers : Answers m none [rule])

/-- The check gives something that is `P`, or reports one error. -/
inductive Fits (P : α → Prop) (rule : Rule) (m : Check α) : Prop where
  | fit (a : α) (holds : P a) (answers : Answers m a [])
  | unfit (a : α) (answers : Answers m a [rule])

section

variable {m : Check α} {f : α → Check β} {a : α} {b : β} {rules others : List Rule} {rule : Rule} {span : Span}
  {headline : String} {notes : List String} {P : β → Prop} {S : Rule → Prop}

theorem answers_pure (a : α) : Answers (pure a) a [] :=
  ⟨[], rfl, fun p => by rw [List.append_nil]; rfl⟩

theorem Answers.eq {c} (h : Answers m a rules) (same : a = c) : Answers m c rules := same ▸ h

theorem answers_error : Answers (error rule span headline notes) () [rule] := ⟨_, rfl, fun _ => rfl⟩

theorem answers_warning : Answers (warning rule span headline) () [] := ⟨_, rfl, fun _ => rfl⟩

theorem Answers.bind (first : Answers m a rules) (next : Answers (f a) b others) :
    Answers (m >>= f) b (rules ++ others) := by
  obtain ⟨added, rfl, ran⟩ := first
  obtain ⟨later, rfl, goes⟩ := next
  refine ⟨added ++ later, Log.errors_append .., fun p => ?_⟩
  rw [run_bind, ran, goes, List.append_assoc]

theorem answers_refused (a : α) : Answers (error rule span headline notes >>= fun _ => pure a) a [rule] :=
  answers_error.bind (answers_pure a)

theorem Answers.warned_if {c : Prop} [Decidable c] {f : Unit → Check α} (rest : Answers (f ()) a rules) :
    Answers (if c then warning rule span headline >>= f else f ()) a rules := by
  split
  · exact answers_warning.bind rest
  · exact rest

theorem finds_pure {b} (sole : ∀ c, P c ↔ c = b) : Finds P S (pure (some b)) := .found b sole (answers_pure _)

theorem finds_refused (fails : ∀ b, ¬ P b) (known : S rule) :
    Finds P S (error rule span headline notes >>= fun _ => pure none) :=
  .missing fails rule known (answers_refused _)

theorem Finds.behind {f : α → Check (Option β)} (first : Answers m a []) (rest : Finds P S (f a)) :
    Finds P S (m >>= f) := by
  cases rest with
  | found b sole answers => exact .found b sole (first.bind answers)
  | missing fails rule known answers => exact .missing fails rule known (first.bind answers)

theorem Finds.bind {m} {Q : α → Prop} {f : Option α → Check (Option β)} (first : Finds Q S m)
    (stops : f none = pure none) (needs : ∀ b, P b → ∃ a, Q a)
    (rest : ∀ a, (∀ c, Q c ↔ c = a) → Finds P S (f (some a))) : Finds P S (m >>= f) := by
  cases first with
  | found a sole answers => exact .behind answers (rest a sole)
  | missing fails rule known answers =>
    refine .missing (fun b holds => ?_) rule known (answers.bind (stops ▸ answers_pure none))
    obtain ⟨a, held⟩ := needs b holds
    exact fails a held

theorem Finds.map {m} {Q : α → Prop} {g : α → β} (first : Finds Q S m) (same : ∀ b, P b ↔ ∃ a, Q a ∧ g a = b) :
    Finds P S (m >>= fun r => pure (r.map g)) :=
  .bind first rfl (fun b holds => ((same b).1 holds).imp fun _ => And.left)
    fun a sole => finds_pure fun b => by simp [same, sole, eq_comm]

theorem Finds.congr {m} {Q : β → Prop} (h : Finds Q S m) (same : ∀ b, P b ↔ Q b) : Finds P S m := by
  obtain rfl : P = Q := funext fun b => propext (same b)
  exact h

end

theorem foldlM_answers {f : β → α → Check β} (xs : List α) (Inv : List α → β → List Rule → Prop) {b}
    (start : Inv [] b [])
    (step : ∀ {before x after b rules}, xs = before ++ x :: after → Inv before b rules →
      ∃ c own, Answers (f b x) c own ∧ Inv (before ++ [x]) c (rules ++ own)) :
    ∃ c rules, Answers (xs.foldlM f b) c rules ∧ Inv xs c rules := by
  have folded : ∀ after before b rules, xs = before ++ after → Inv before b rules →
      ∃ c own, Answers (after.foldlM f b) c own ∧ Inv xs c (rules ++ own) := by
    intro after
    induction after with
    | nil =>
      intro before b rules whole kept
      rw [List.append_nil] at whole
      exact ⟨b, [], answers_pure b, by rwa [whole, List.append_nil]⟩
    | cons x after ih =>
      intro before b rules whole kept
      obtain ⟨c, own, first, now⟩ := step whole kept
      obtain ⟨d, more, rest, final⟩ := ih (before ++ [x]) c _ (by simp [whole]) now
      rw [List.foldlM_cons]
      exact ⟨d, own ++ more, first.bind rest, by rwa [← List.append_assoc]⟩
  exact folded xs [] b [] rfl start

end Check

namespace Outline.Attribute

/-- The modifiers that count: those the sigil knows, each once. -/
def effective (a : Outline.Attribute) : List String :=
  ((a.modifiers.map Prod.fst).filter fun m => a.sigil.modifiers.contains m).eraseDups

/-- The value of an attribute without sigil, read once if `initial`. -/
def plain (a : Outline.Attribute) (initial : Bool) : BindingValue :=
  match a.value with
  | some (.code code) => .dynamic code initial
  | some (.text text _) => .static text
  | none => .empty

/-- What an attribute stands for, nothing if its value or its sigil does not fit. -/
def read? (a : Outline.Attribute) : Option Template.Attribute :=
  match a.sigil, a.value with
  | .plain, _ => some (.binding ⟨a.name, a.plain (a.effective.contains "initial"), a.span⟩)
  | .reactive, some (.code code) => some (.binding ⟨a.name, .reactive code, a.span⟩)
  | .event, some (.code code) =>
    some (.event a.name ⟨code, a.effective.filterMap EventModifier.ofText?, a.span⟩)
  | .sync, some (.code code) => some (.sync ⟨a.name, code, a.effective.contains "initial", a.span⟩)
  | .receiver kind, some (.code code) => if kind = "node" then some (.receiver ⟨code, a.span⟩) else none
  | _, _ => none

end Outline.Attribute

namespace Check

theorem modifiers_answers (a : Outline.Attribute) (accepted : List String) (given : List (String × Span)) :
    Answers (modifiers a accepted given) (accepted ++
      (((given.map Prod.fst).filter fun m => a.sigil.modifiers.contains m).removeAll accepted).eraseDups) [] := by
  induction given generalizing accepted with
  | nil => exact (answers_pure accepted).eq (by simp [List.removeAll])
  | cons m rest ih =>
    unfold modifiers
    split
    · refine (answers_warning.bind (ih accepted)).eq ?_
      by_cases known : a.sigil.modifiers.contains m.1 = true <;> simp_all [List.removeAll]
    · split
      · refine (ih _).eq ?_
        simp_all only [List.removeAll, List.map_cons, List.filter_cons, List.eraseDups_cons, List.filter_filter,
          ↓reduceIte, Bool.not_eq_true, Bool.not_false, List.append_assoc, List.singleton_append]
        congr 3
        exact List.filter_congr fun x _ => by grind
      · exact (answers_warning.bind (ih accepted)).eq (by simp_all)

theorem effective_answers (a : Outline.Attribute) : Answers (modifiers a [] a.modifiers) a.effective [] :=
  (modifiers_answers a [] a.modifiers).eq (by simp [Outline.Attribute.effective, List.removeAll])

theorem requireCode_finds (a : Outline.Attribute) :
    Finds (fun code => a.value = some (.code code)) (fun _ => True) (requireCode a) := by
  unfold requireCode
  split
  · rename_i given
    exact finds_pure fun code => by simp [given, eq_comm]
  · rename_i given
    exact finds_refused (by simp [given]) trivial
  · rename_i given
    exact finds_refused (by simp [given]) trivial

theorem plainValue_answers (a : Outline.Attribute) (initial : Bool) :
    Answers (plainValue a initial) (a.plain initial) [] := by
  unfold plainValue ignoredModifier Outline.Attribute.plain
  rcases a.value with _ | (_ | _)
  · exact .warned_if (answers_pure _)
  · exact .warned_if (answers_pure _)
  · exact answers_pure _

theorem checkAttribute_finds (a : Outline.Attribute) :
    Finds (a.read? = some ·) (fun _ => True) (checkAttribute a) := by
  refine .behind (effective_answers a) ?_
  unfold Outline.Attribute.read?
  cases a.sigil with
  | plain => exact .behind (plainValue_answers a _) (finds_pure fun b => by simp [eq_comm])
  | reactive | event | sync =>
    exact (requireCode_finds a).map fun b => by rcases a.value with _ | (_ | _) <;> simp
  | receiver kind =>
    by_cases node : kind = "node"
    · simp only [if_pos node]
      exact (requireCode_finds a).map fun b => by rcases a.value with _ | (_ | _) <;> simp [node]
    · simp only [if_neg node]
      exact finds_refused (fun b => by rcases a.value with _ | (_ | _) <;> simp [node]) trivial

end Check

namespace Tag

def value? (tag : Tag) (name : String) : Option BindingValue := (tag.binding? name).map (·.value)

def Fixed (tag : Tag) (name : String) : Prop := ∀ v ∈ tag.value? name, v = .empty ∨ ∃ text, v = .static text

/-- How a synced input keeps its value, by its type. -/
def inputForm? (tag : Tag) : Option SyncKind :=
  match tag.value? "type" with
  | none => some .text
  | some (.static type) =>
    if type = "text" then some .text
    else if type = "checkbox" then some .checkbox
    else if type = "radio" then some .radio
    else none
  | some _ => none

def syncForm? (tag : Tag) : Option SyncKind :=
  if tag.name = "textarea" then some .text
  else if tag.name = "select" then some (.select (tag.value? "multiple").isSome)
  else if tag.name = "input" then tag.inputForm?
  else none

end Tag

namespace SyncKind

/-- The binding that a sync sets in its place. -/
def target : SyncKind → String
  | .checkbox => "checked"
  | .text | .radio | .select _ => "value"

/-- The kind as long as selects are taken as single. -/
def single : SyncKind → SyncKind
  | .select _ => .select false
  | kind => kind

end SyncKind

/-- A tag that may be synced, and the kind of element that it is then. -/
structure SyncsAs (tag : Tag) (sync : Sync) (kind : SyncKind) : Prop where
  name : sync.name = "sync"
  plain : sync.initial = false
  form : tag.syncForm? = some kind
  inert : ∀ v ∈ tag.value? kind.target, v.isInert
  fixed : ∀ multiple, kind = .select multiple → tag.Fixed "multiple"

def syncRules : List Rule :=
  [.syncUnknownName, .syncModifier, .syncMultiple, .syncUnsupportedTag, .syncUnsupportedType, .syncDynamicType,
    .syncReactiveTarget, .syncDynamicMultiple]

namespace Check

theorem inputKind_finds (tag : Tag) : Finds (tag.inputForm? = some ·) (· ∈ syncRules) (inputKind tag) := by
  unfold inputKind Tag.inputForm? Tag.value?
  cases tag.binding? "type" with
  | none => exact finds_pure fun b => by simp [eq_comm]
  | some b =>
    simp only [Option.map_some]
    cases b.value with
    | static type =>
      dsimp only
      split
      · exact finds_pure fun b => by simp [eq_comm]
      · split
        · exact finds_pure fun b => by simp [eq_comm]
        · split
          · exact finds_pure fun b => by simp [eq_comm]
          · exact finds_refused (by simp) (by decide)
    | empty | dynamic | reactive => exact finds_refused (by simp) (by decide)

theorem inputForm?_ne_select (tag : Tag) (multiple : Bool) : tag.inputForm? ≠ some (.select multiple) := by
  unfold Tag.inputForm?
  grind

theorem inputForm?_single {tag : Tag} {kind : SyncKind} (form : tag.inputForm? = some kind) : kind.single = kind := by
  cases kind with
  | select multiple => exact (inputForm?_ne_select tag multiple form).elim
  | text | checkbox | radio => rfl

theorem multiple_of_form {tag : Tag} {multiple} (form : tag.syncForm? = some (.select multiple)) :
    multiple = (tag.value? "multiple").isSome := by
  unfold Tag.syncForm? at form
  have other := inputForm?_ne_select tag multiple
  grind

theorem syncKind_finds (tag : Tag) (sync : Sync) :
    Finds (fun kind => ∃ final, tag.syncForm? = some final ∧ final.single = kind) (· ∈ syncRules)
      (syncKind tag sync) := by
  unfold syncKind Tag.syncForm?
  split
  · exact finds_pure fun b => by simp [SyncKind.single, eq_comm]
  · split
    · exact finds_pure fun b => by simp [SyncKind.single, eq_comm]
    · split
      · refine (inputKind_finds tag).congr fun kind => ⟨?_, fun form => ⟨kind, form, inputForm?_single form⟩⟩
        rintro ⟨final, form, rfl⟩
        rwa [inputForm?_single form]
      · exact finds_refused (by simp) (by decide)

theorem selectKind_finds (tag : Tag) :
    Finds (fun kind => kind = .select (tag.value? "multiple").isSome ∧ tag.Fixed "multiple") (· ∈ syncRules)
      (selectKind tag) := by
  unfold selectKind Tag.Fixed Tag.value?
  cases tag.binding? "multiple" with
  | none => exact finds_pure fun b => by simp
  | some b =>
    simp only [Option.map_some, Option.mem_some_iff, forall_eq']
    cases b.value with
    | empty | static => exact finds_pure fun b => by simp
    | dynamic | reactive => exact finds_refused (by simp) (by decide)

theorem target_eq_none {tag : Tag} {name} :
    (tag.binding? name).filter (fun b => !b.value.isInert) = none ↔ ∀ v ∈ tag.value? name, v.isInert := by
  cases found : tag.binding? name <;> simp [Tag.value?, found, Option.filter_eq_none_iff]

theorem soleSync_finds (tag : Tag) (sync : Sync) : Finds (SyncsAs tag sync) (· ∈ syncRules) (soleSync tag sync) := by
  unfold soleSync
  split
  · rename_i other
    exact finds_refused (fun kind legal => other legal.name) (by decide)
  · rename_i named
    split
    · rename_i initial
      exact finds_refused (fun kind legal => by simp [legal.plain] at initial) (by decide)
    · rename_i plain
      refine .bind (syncKind_finds tag sync) rfl (fun kind legal => ⟨_, kind, legal.form, rfl⟩) fun kind sole => ?_
      obtain ⟨final, form, rfl⟩ := (sole kind).2 rfl
      have target : (syncTarget final.single).1 = final.target := by cases final <;> rfl
      dsimp only
      rw [target]
      split
      · rename_i reactive
        refine finds_refused (fun other legal => ?_) (by decide)
        obtain rfl : other = final := Option.some.inj (legal.form.symm.trans form)
        rw [target_eq_none.2 legal.inert] at reactive
        cases reactive
      · rename_i inert
        have legal (other : SyncKind) : SyncsAs tag sync other ↔
            other = final ∧ ∀ multiple, final = .select multiple → tag.Fixed "multiple" := by
          constructor
          · intro h
            obtain rfl : other = final := Option.some.inj (h.form.symm.trans form)
            exact ⟨rfl, h.fixed⟩
          · rintro ⟨rfl, fixed⟩
            exact ⟨by simpa using named, by simpa using plain, form, target_eq_none.1 inert, fixed⟩
        cases final with
        | text | checkbox | radio => exact finds_pure fun other => by simp [legal, SyncKind.single]
        | select multiple =>
          refine (selectKind_finds tag).congr fun other => ?_
          rw [legal, multiple_of_form form]
          simp

end Check

namespace Outline.Directive

def expr? (d : Outline.Directive) : Option Expr :=
  (d.argument.filter fun a => !a.text.isEmpty).map fun a => Argument.expr a.text.toList a.span

def patterns? (d : Outline.Directive) : Option (List Code) :=
  (d.argument.map fun a => Argument.codes (Argument.split a.text.toList ',') a.span).filter
    fun patterns => !patterns.isEmpty

def loop? (d : Outline.Directive) : Option Loop :=
  d.argument.bind fun a => (Argument.loop a.text.toList a.span).toOption

def slot? (d : Outline.Directive) : Option String :=
  match d.argument.filter fun a => !a.text.isEmpty with
  | none => some defaultSlot
  | some a => if Text.isIdentifier a.text then some a.text else none

/-- The name in front of the first comma of the argument, what is behind it, and where. -/
def named? (d : Outline.Directive) : Option (String × List Argument.Piece × Span) :=
  d.argument.bind fun a =>
    match Argument.split a.text.toList ',' with
    | first :: rest =>
      if Text.isIdentifierList (Text.trim first.text) then
        some (String.ofList (Text.trim first.text), rest, a.span)
      else none
    | [] => none

end Outline.Directive

namespace Check

variable (d : Outline.Directive)

theorem refuseArgument_fits :
    Fits (fun _ => d.argument.isNone) .directiveUnexpectedArgument (refuseArgument d) := by
  unfold refuseArgument
  cases d.argument with
  | none => exact .fit () rfl (answers_pure ())
  | some argument => exact .unfit () answers_error

theorem requireExpr_fits : Fits (d.expr? = some ·) .directiveMissingArgument (requireExpr d) := by
  unfold requireExpr Outline.Directive.expr?
  cases d.argument.filter fun a => !a.text.isEmpty with
  | none => exact .unfit _ (answers_refused _)
  | some argument => exact .fit _ rfl (answers_pure _)

theorem patterns_fits : Fits (d.patterns? = some ·) .directiveMissingArgument (patterns d) := by
  unfold patterns Outline.Directive.patterns?
  cases d.argument with
  | none => exact .unfit _ (answers_refused _)
  | some argument =>
    dsimp only
    split
    · exact .unfit _ (answers_error.bind (answers_pure _))
    · rename_i some
      exact .fit _ (by simpa using some) (answers_pure _)

theorem slotName_finds : Finds (d.slot? = some ·) (fun _ => True) (slotName d) := by
  unfold slotName Outline.Directive.slot?
  cases d.argument.filter fun a => !a.text.isEmpty with
  | none => exact finds_pure fun name => by simp [eq_comm]
  | some argument =>
    dsimp only
    split
    · exact finds_pure fun name => by simp [eq_comm]
    · exact finds_refused (by simp) trivial

theorem splitFrom_ne_nil (sep : Char) (n : Argument.Nesting) (start pos : Nat) (taken text : List Char) :
    Argument.splitFrom sep n start pos taken text ≠ [] := by
  induction text generalizing n start pos taken with
  | nil => simp [Argument.splitFrom]
  | cons c rest ih =>
    unfold Argument.splitFrom
    dsimp only
    split
    · exact List.cons_ne_nil _ _
    · exact ih _ _ _ _

theorem templateName_finds {d : Outline.Directive} {argument} (given : d.argument = some argument) :
    Finds (fun named => d.named? = some (named.1, named.2, argument.span)) (fun _ => True) (templateName argument) := by
  unfold templateName Outline.Directive.named?
  rw [given, Option.bind_some]
  cases pieces : Argument.split argument.text.toList ',' with
  | nil => exact (splitFrom_ne_nil _ _ _ _ _ _ pieces).elim
  | cons first rest =>
    dsimp only
    split
    · exact finds_pure fun named => by simp [Prod.ext_iff, eq_comm]
    · exact finds_refused (by simp) trivial

end Check

end Template

end ComponentCompiler
