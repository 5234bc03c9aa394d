import ComponentCompiler.Proofs.Check.Answers

/-!
# Chains of directives

A continuation is reported exactly if it does not fit the chain that is open behind its siblings:
`continuation_reported`.
-/

namespace ComponentCompiler.Template

namespace Outline.Item

def continuation? : Outline.Item → Option Continuation
  | .directive d _ _ => Continuation.ofName? d.name
  | _ => none

def directive? : Outline.Item → Option String
  | .directive d _ _ => some d.name
  | _ => none

end Outline.Item

/-- The directive that is the last of these siblings, continuations apart. -/
def lastOpened (before : List Outline.Item) : Option String :=
  (before.reverse.find? (·.continuation?.isNone)).bind Outline.Item.directive?

/-- The continuations at the end of these siblings, the last one first. -/
def continued (before : List Outline.Item) : List Continuation :=
  (before.reverse.takeWhile (·.continuation?.isSome)).filterMap (·.continuation?)

def Continuation.openers : Continuation → List String
  | .elseIf | .otherwise => ["if"]
  | .when => ["match"]
  | .case | .fallCase | .fallDefault => ["switch"]
  | .default => ["match", "switch"]

/-- The continuations that come last in a chain, each in place of the others. -/
def closers (opener : String) : List Continuation :=
  if opener = "if" then [.otherwise] else if opener = "match" then [.default] else [.default, .fallDefault]

/-- The rule that it breaks behind one that comes last. -/
def Continuation.late? : Continuation → Option Rule
  | .elseIf | .otherwise => some .directiveAfterElse
  | .when => some .directiveAfterDefault
  | .default | .fallDefault => some .directiveDuplicateDefault
  | .case | .fallCase => none

def chainRules : List Rule :=
  [.directiveUnpreceded, .directiveAfterElse, .directiveAfterDefault, .directiveDuplicateDefault]

def Breaks (before : List Outline.Item) (k : Continuation) (rule : Rule) : Prop :=
  (rule = .directiveUnpreceded ∧ ∀ opener ∈ lastOpened before, opener ∉ k.openers) ∨
    k.late? = some rule ∧ ∃ opener ∈ lastOpened before, opener ∈ k.openers ∧ ∃ c ∈ continued before, c ∈ closers opener

/-- The directive that opened the chain, and whether it is closed. -/
def Chain.status : Chain → String × Bool
  | .conditional _ _ _ otherwise _ => ("if", otherwise.isSome)
  | .choice _ _ default _ => ("match", default.isSome)
  | .switch _ cases _ => ("switch", cases.any (·.isDefault))

def statusBehind (before : List Outline.Item) : Option (String × Bool) :=
  ((lastOpened before).filter (["if", "match", "switch"].contains ·)).map fun opener =>
    (opener, (continued before).any ((closers opener).contains ·))

def Continuation.fault? (k : Continuation) : Option (String × Bool) → Option Rule
  | none => some .directiveUnpreceded
  | some (opener, closed) =>
    if k.openers.contains opener then if closed then k.late? else none else some .directiveUnpreceded

def Continuation.goOn (k : Continuation) (status : String × Bool) : String × Bool :=
  (status.1, (closers status.1).contains k || status.2)

section

variable {before : List Outline.Item} {i : Outline.Item} {k : Continuation}

theorem lastOpened_other (other : i.continuation? = none) : lastOpened (before ++ [i]) = i.directive? := by
  simp [lastOpened, other]

theorem continued_other (other : i.continuation? = none) : continued (before ++ [i]) = [] := by
  simp [continued, other]

theorem lastOpened_continuation (goes : i.continuation? = some k) : lastOpened (before ++ [i]) = lastOpened before := by
  simp [lastOpened, goes]

theorem continued_continuation (goes : i.continuation? = some k) :
    continued (before ++ [i]) = k :: continued before := by
  simp [continued, goes]

theorem statusBehind_continuation (goes : i.continuation? = some k) :
    statusBehind (before ++ [i]) = (statusBehind before).map k.goOn := by
  rw [statusBehind, lastOpened_continuation goes, continued_continuation goes, statusBehind, Option.map_map]
  rfl

theorem statusBehind_other (other : i.continuation? = none) :
    statusBehind (before ++ [i]) = (i.directive?.filter (["if", "match", "switch"].contains ·)).map (·, false) := by
  rw [statusBehind, lastOpened_other other, continued_other other]
  rfl

theorem fault?_statusBehind (rule : Rule) : k.fault? (statusBehind before) = some rule ↔ Breaks before k rule := by
  have opens : ∀ opener ∈ k.openers, ["if", "match", "switch"].contains opener = true := by cases k <;> decide
  unfold statusBehind Breaks
  cases lastOpened before with
  | none => simp [Continuation.fault?, eq_comm]
  | some opener =>
    by_cases right : opener ∈ k.openers
    · rw [Option.filter_some_pos (opens opener right)]
      simp [Continuation.fault?, right, and_comm]
    · have wrong : k.fault? (((some opener).filter (["if", "match", "switch"].contains ·)).map fun opener =>
          (opener, (continued before).any ((closers opener).contains ·))) = some .directiveUnpreceded := by
        rw [Option.filter_some]
        split <;> simp [Continuation.fault?, right]
      rw [wrong]
      simp [right, eq_comm]

end

namespace Check

def broken (log : Log) : List Rule := log.errors.filter (chainRules.contains ·)

/-- The check reports `rules` about chains on its own; if there are none, it leaves the rest to `body`. -/
def Reports (body : Check β) (rules : List Rule) (P : α → Prop) (m : Check α) : Prop :=
  ∀ p, ∃ own : Log, broken own = rules ∧ P (m.run p).1 ∧
    (m.run p).2 = if rules = [] then (body.run { p with log := p.log ++ own }).2 else { p with log := p.log ++ own }

section

variable {body : Check β} {m : Check α} {f : α → Check γ} {Q : α → Prop} {P : γ → Prop}
  {rules : List Rule} {rule : Rule}
  {span : Span} {headline : String} {notes : List String}

theorem Reports.behind (first : Fits Q rule m) (other : rule ∉ chainRules) (rest : ∀ a, Reports body rules P (f a)) :
    Reports body rules P (m >>= f) := by
  obtain ⟨a, added, silent, ran⟩ :
      ∃ a added, broken added = [] ∧ ∀ p, m.run p = (a, { p with log := p.log ++ added }) := by
    cases first with
    | fit a _ answers =>
      obtain ⟨added, none, ran⟩ := answers
      exact ⟨a, added, by simp [broken, none], ran⟩
    | unfit a answers =>
      obtain ⟨added, one, ran⟩ := answers
      exact ⟨a, added, by simp [broken, one, other], ran⟩
  intro p
  obtain ⟨own, same, holds, ends⟩ := rest a { p with log := p.log ++ added }
  refine ⟨added ++ own, ?_, ?_⟩
  · rw [broken, Log.errors_append, List.filter_append, ← broken, ← broken, silent, same, List.nil_append]
  · rw [run_bind, ran, ← List.append_assoc]
    exact ⟨holds, ends⟩

theorem reports_body {g : β → γ} (holds : ∀ b, P (g b)) : Reports body [] P (body >>= fun b => pure (g b)) :=
  fun p => ⟨[], rfl, holds _, by rw [List.append_nil]; rfl⟩

theorem reports_error {c} (holds : P c) (chained : rule ∈ chainRules) :
    Reports body [rule] P (error rule span headline notes >>= fun _ => pure c) :=
  fun _ => ⟨_, by simp [broken, Log.errors, Diagnostic.errorAt, Diagnostic.isError, chained], holds, rfl⟩

end

section

variable (d : Outline.Directive) (span : Span) (body : Check (List Entity))

theorem status_switch_append (value : Expr) (cases : List SwitchCase) (c : SwitchCase) (start : Span) :
    (Chain.switch value (cases ++ [c]) start).status = ("switch", c.isDefault || cases.any (·.isDefault)) := by
  simp [Chain.status, Bool.or_comm]

theorem continueCase_reports {k : Continuation} (plain : k = .case ∨ k = .fallCase) (falls : Bool) (value : Expr)
    (cases : List SwitchCase) (start : Span) :
    Reports body (k.fault? (some ("switch", cases.any (·.isDefault)))).toList
      (fun next => next.map Chain.status = some (k.goOn ("switch", cases.any (·.isDefault))))
      (continueCase falls d span body (some (.switch value cases start))) := by
  have fine : k.fault? (some ("switch", cases.any (·.isDefault))) = none := by
    rcases plain with rfl | rfl <;> cases cases.any (·.isDefault) <;> rfl
  rw [fine]
  refine .behind (requireExpr_fits d) (by decide) fun _ => reports_body fun _ => ?_
  rw [Option.map_some, status_switch_append]
  rcases plain with rfl | rfl <;> rfl

theorem switchDefault_reports {k : Continuation} (last : k = .default ∨ k = .fallDefault) (falls : Bool) (value : Expr)
    (cases : List SwitchCase) (start : Span) :
    Reports body (k.fault? (some ("switch", cases.any (·.isDefault)))).toList
      (fun next => next.map Chain.status = some (k.goOn ("switch", cases.any (·.isDefault))))
      (switchDefault falls span body value cases start) := by
  have closed : k.goOn ("switch", cases.any (·.isDefault)) = ("switch", true) := by rcases last with rfl | rfl <;> rfl
  rw [closed]
  unfold switchDefault
  cases given : cases.any (·.isDefault) with
  | true =>
    have late : k.fault? (some ("switch", true)) = some .directiveDuplicateDefault := by
      rcases last with rfl | rfl <;> rfl
    rw [late]
    exact reports_error (by rw [Option.map_some, Chain.status, given]) (by decide)
  | false =>
    have fine : k.fault? (some ("switch", false)) = none := by rcases last with rfl | rfl <;> rfl
    rw [fine]
    exact reports_body fun _ => by rw [Option.map_some, status_switch_append]; rfl

theorem reports_refused {f : _ → Check γ} {rules} {P : γ → Prop} (rest : ∀ a, Reports body rules P (f a)) :
    Reports body rules P (refuseArgument d >>= f) :=
  .behind (refuseArgument_fits d) (by decide) rest

theorem continueChain_reports (k : Continuation) (chain : Option Chain) :
    Reports body (k.fault? (chain.map Chain.status)).toList
      (fun next => next.map Chain.status = (chain.map Chain.status).map k.goOn)
        (continueChain k d span body chain) := by
  rcases chain with _ | (⟨condition, first, elseIfs, _ | otherwise, start⟩ | ⟨value, cases, _ | default, start⟩ |
    ⟨value, cases, start⟩)
  · cases k
    case default | fallDefault => exact reports_refused d body fun _ => reports_error rfl (by decide)
    all_goals exact reports_error rfl (by decide)
  · cases k
    case elseIf => exact .behind (requireExpr_fits d) (by decide) fun _ => reports_body fun _ => rfl
    case otherwise => exact reports_refused d body fun _ => reports_body fun _ => rfl
    case default | fallDefault => exact reports_refused d body fun _ => reports_error rfl (by decide)
    all_goals exact reports_error rfl (by decide)
  · cases k
    case default | fallDefault => exact reports_refused d body fun _ => reports_error rfl (by decide)
    all_goals exact reports_error rfl (by decide)
  · cases k
    case when => exact .behind (patterns_fits d) (by decide) fun _ => reports_body fun _ => rfl
    case default => exact reports_refused d body fun _ => reports_body fun _ => rfl
    case fallDefault => exact reports_refused d body fun _ => reports_error rfl (by decide)
    all_goals exact reports_error rfl (by decide)
  · cases k
    case default | fallDefault => exact reports_refused d body fun _ => reports_error rfl (by decide)
    all_goals exact reports_error rfl (by decide)
  · cases k
    case case => exact continueCase_reports d span body (.inl rfl) false value cases start
    case fallCase => exact continueCase_reports d span body (.inr rfl) true value cases start
    case default =>
      exact reports_refused d body fun _ => switchDefault_reports span body (.inl rfl) false value cases start
    case fallDefault =>
      exact reports_refused d body fun _ => switchDefault_reports span body (.inr rfl) true value cases start
    all_goals exact reports_error rfl (by decide)

end

def walk (slots : Option SlotTable) (scope : Scope) (items : List Outline.Item) (s : Siblings) : Check Siblings :=
  items.foldlM (fun s i => item slots scope i s) s

section

variable {slots : Option SlotTable} {scope : Scope} {before : List Outline.Item} {s : Siblings}

theorem closeChain_chain (s : Siblings) (p : Progress) : ((closeChain s).run p).1.chain = none := by
  unfold closeChain
  split
  · assumption
  · rfl
  · split <;> rfl
  · split <;> rfl

theorem push?_chain (s : Siblings) (e : Option Entity) : (s.push? e).chain = s.chain := by
  cases e <;> rfl

theorem pushText_chain (s : Siblings) (items : List Fragment) (span : Span) :
    (s.pushText items span).chain = s.chain := by
  unfold Siblings.pushText
  split
  · rfl
  · split <;> rfl

theorem checkDirective_status {d span hasBody body} (closed : s.chain = none) (p : Progress) :
    ((checkDirective slots scope d span hasBody body s).run p).1.chain.map Chain.status =
      ((some d.name).filter (["if", "match", "switch"].contains ·)).map (·, false) := by
  unfold checkDirective
  by_cases opens : d.name ∈ ["if", "match", "switch"]
  · simp only [List.mem_cons, List.not_mem_nil, or_false] at opens
    rcases opens with name | name | name <;> simp only [name] <;> rfl
  · have other : (some d.name).filter (["if", "match", "switch"].contains ·) = none := by simpa using opens
    simp only [List.mem_cons, List.not_mem_nil, or_false, not_or] at opens
    have kept (e : Option Entity) : (s.push? e).chain.map Chain.status = none := by rw [push?_chain, closed]; rfl
    rw [other, if_neg opens.1, if_neg opens.2.1, if_neg opens.2.2]
    repeat' split
    all_goals first | exact kept _ | exact congrArg _ closed

theorem item_continuation {d k} (goes : Continuation.ofName? d.name = some k) (children : List Outline.Item)
    (span : Span) (s : Siblings) (p : Progress) :
    (item slots scope (.directive d children span) s).run p =
      let ran := (continueChain k d span (siblings slots .nested children {}) s.chain).run p
      ({ s with chain := ran.1 }, ran.2) := by
  rw [item]
  simp only [goes]
  rfl

/-- The chain behind siblings is the one that they tell. -/
theorem item_status (follows : s.chain.map Chain.status = statusBehind before) (i : Outline.Item) (p : Progress) :
    ((item slots scope i s).run p).1.chain.map Chain.status = statusBehind (before ++ [i]) := by
  cases i with
  | text items span =>
    rw [statusBehind_other rfl, item]
    exact congrArg (Option.map _) ((pushText_chain ..).trans (closeChain_chain s p))
  | tag header children span =>
    rw [statusBehind_other rfl, item]
    exact congrArg (Option.map _) ((push?_chain ..).trans (closeChain_chain s p))
  | component header children span =>
    rw [statusBehind_other rfl, item]
    exact congrArg (Option.map _) (closeChain_chain s p)
  | directive d children span =>
    cases goes : Continuation.ofName? d.name with
    | some k =>
      have goes' : (Outline.Item.directive d children span).continuation? = some k := goes
      obtain ⟨own, -, next, -⟩ := continueChain_reports d span (siblings slots .nested children {}) k s.chain p
      rw [item_continuation goes, statusBehind_continuation goes', ← follows]
      exact next
    | none =>
      have goes' : (Outline.Item.directive d children span).continuation? = none := goes
      rw [statusBehind_other goes', item]
      simp only [goes]
      exact checkDirective_status (closeChain_chain s p) _

theorem walk_status (follows : s.chain.map Chain.status = statusBehind before) (items : List Outline.Item)
    (p : Progress) :
    ((walk slots scope items s).run p).1.chain.map Chain.status = statusBehind (before ++ items) := by
  induction items generalizing before s p with
  | nil => rwa [List.append_nil]
  | cons i items ih =>
    rw [walk, List.foldlM_cons, run_bind, List.append_cons]
    exact ih (item_status follows i p) _

theorem siblings_append (items after : List Outline.Item) (s : Siblings) :
    siblings slots scope (items ++ after) s = walk slots scope items s >>= siblings slots scope after := by
  induction items generalizing s with
  | nil => rfl
  | cons i items ih =>
    rw [List.cons_append, siblings]
    simp only [ih]
    rfl

end

end Check

/-- A continuation is reported exactly if it does not fit behind its siblings. What it reports itself is `own`; the
lines below it are checked behind that, if it fits. -/
theorem continuation_reported (slots : Option SlotTable) (scope : Scope) (before after children : List Outline.Item)
    {d : Outline.Directive} {k : Continuation} (goes : Continuation.ofName? d.name = some k)
    (span : Span) (p : Progress) :
    let reached := (Check.walk slots scope before {}).run p
    let here := (Check.item slots scope (.directive d children span) reached.1).run reached.2
    (Check.siblings slots scope (before ++ .directive d children span :: after) {}).run p =
        (Check.siblings slots scope after here.1).run here.2 ∧
      ∃ own : Log, let reported := { reached.2 with log := reached.2.log ++ own }
        (∀ rule ∈ chainRules, rule ∈ own.errors ↔ Breaks before k rule) ∧
        ((∃ rule, Breaks before k rule) → here.2 = reported) ∧
        ((∀ rule, ¬ Breaks before k rule) → here.2 = ((Check.siblings slots .nested children {}).run reported).2) := by
  intro reached here
  have follows : reached.1.chain.map Chain.status = statusBehind before :=
    @Check.walk_status slots scope [] {} rfl before p
  obtain ⟨own, rules, -, ends⟩ :=
    Check.continueChain_reports d span (Check.siblings slots .nested children {}) k reached.1.chain reached.2
  have here_eq : here.2 = _ := (congrArg Prod.snd (Check.item_continuation goes ..)).trans ends
  rw [follows] at rules here_eq
  simp only [← fault?_statusBehind]
  refine ⟨?_, own, fun rule chained => ?_, ?_, ?_⟩
  · rw [Check.siblings_append, Check.run_bind, Check.siblings]
    rfl
  · rw [← Option.mem_toList, ← rules]
    exact (List.mem_filter.trans (and_iff_left (by simpa using chained))).symm
  · rintro ⟨rule, faulty⟩
    rw [here_eq, faulty]
    rfl
  · intro fits
    rw [here_eq, Option.eq_none_iff_forall_not_mem.2 fits]
    rfl

theorem elseif_behind_else_reported :
    let line (name : String) : Outline.Item := .directive ⟨name, ⟨0, 0⟩, none⟩ [] ⟨0, 0⟩
    let reached := (Check.walk none .root [line "if", line "else", line "when"] {}).run {}
    .directiveAfterElse ∈ ((Check.item none .root (line "elseif") reached.1).run reached.2).2.log.errors := by
  intro line reached
  have breaks : Breaks [line "if", line "else", line "when"] .elseIf .directiveAfterElse :=
    .inr ⟨rfl, "if", by decide, by decide, .otherwise, by decide, by decide⟩
  obtain ⟨-, own, rules, faulty, -⟩ := continuation_reported none .root [line "if", line "else", line "when"] [] []
    (d := ⟨"elseif", ⟨0, 0⟩, none⟩) rfl ⟨0, 0⟩ {}
  rw [faulty ⟨_, breaks⟩, Log.errors_append]
  exact List.mem_append_right _ ((rules _ (by decide)).2 breaks)

end ComponentCompiler.Template
