import ComponentCompiler.Proofs.Respan.Script

/-!
# First declarations

Only the first `Component` type and the first creating function of a script count. Main statements: `contractOf_first`
and `inspect_created`.
-/

namespace ComponentCompiler.Script

def TypeMember.name? : TypeMember → Option String
  | .property name _ _ _ => name
  | .other _ => none

def TypeMember.body? : TypeMember → Option (List TypeMember)
  | .property _ _ (some (.literal body _)) _ => some body
  | _ => none

namespace Inspect

/-- The inspection gives `a`, changes the contract by `g` and reports `log`, wherever it starts. -/
def Does {α : Type} (m : Inspect α) (a : α) (g : Contract → Contract) (log : Log) : Prop :=
  ∀ f, m.run f = (a, ⟨g f.contract, f.log ++ log⟩)

namespace Does

variable {α β : Type} {m : Inspect α} {k : α → Inspect β} {a : α} {b : β} {g g' : Contract → Contract} {log log' : Log}

theorem pure (a : α) : Does (Pure.pure a) a id [] := fun f => by
  rw [List.append_nil]
  rfl

theorem report (d : Diagnostic) : Does (report d) () id [d] := fun _ => rfl

theorem amend (g : Contract → Contract) : Does (amend g) () g [] := fun f => by
  rw [List.append_nil]
  rfl

theorem bind (first : Does m a g log) (next : Does (k a) b g' log') : Does (m >>= k) b (g' ∘ g) (log ++ log') := by
  intro f
  rw [StateT.run_bind, first f, ← List.append_assoc]
  exact next ⟨g f.contract, f.log ++ log⟩

theorem reads (first : Does m a id log) (next : Does (k a) b g log') : Does (m >>= k) b g (log ++ log') :=
  first.bind next

theorem behind {n : Inspect β} (d : Diagnostic) (rest : Does n b g log) :
    Does (Inspect.report d >>= fun _ => n) b g (d :: log) :=
  (report d).bind rest

theorem whenever {c : Prop} [Decidable c] {n : Inspect β} {d : Diagnostic} (rest : Does n b g log) :
    Does (if c then Inspect.report d >>= fun _ => n else n) b g ((if c then [d] else []) ++ log) := by
  split
  · exact rest.behind d
  · exact rest

theorem otherwise {p : Finding → Prop} [DecidablePred p] {n : Inspect Unit} {d : Diagnostic} (rest : Does n () g log)
    (f : Finding) : ((get >>= fun f => if p f then Inspect.report d else n).run f).2 =
      if p f then ⟨f.contract, f.log ++ [d]⟩ else ⟨g f.contract, f.log ++ log⟩ := by
  change ((if p f then _ else _ : Inspect Unit).run f).2 = _
  split
  · rfl
  · rw [rest f]

end Does

/-- Behind the declarations in `found`, the members of `body` are declared or refused. -/
structure Recorded (found : List SlotDecl) (body : List TypeMember) (decls : List SlotDecl) (refused : Log) : Prop where
  once : (found.map (·.name)).Nodup → ((found ++ decls).map (·.name)).Nodup
  ordered : (decls.map (·.name)).Sublist (body.filterMap TypeMember.name?)
  reported : ∀ d ∈ refused, d.isError = true ∧ ∃ m ∈ body, d.region = .span m.span
  counted : body.length = decls.length + refused.length

namespace Recorded

variable {found decls : List SlotDecl} {member : TypeMember} {rest : List TypeMember} {refused : Log}

theorem refuse {d : Diagnostic} (below : Recorded found rest decls refused) (isError : d.isError = true)
    (here : d.region = .span member.span) : Recorded found (member :: rest) decls (d :: refused) where
  once := below.once
  ordered := by
    rw [List.filterMap_cons]
    split
    · exact below.ordered
    · exact below.ordered.cons _
  reported := by grind [below.reported]
  counted := congrArg (· + 1) below.counted

theorem declare {decl : SlotDecl} (below : Recorded (found ++ [decl]) rest decls refused)
    (named : member.name? = some decl.name) (fresh : decl.name ∉ found.map (·.name)) :
    Recorded found (member :: rest) (decl :: decls) refused where
  once before := by
    have extended : ((found ++ [decl]).map (·.name)).Nodup := by grind
    simpa using below.once extended
  ordered := by
    rw [List.filterMap_cons, named]
    exact below.ordered.cons_cons _
  reported := by grind [below.reported]
  counted := by grind [below.counted]

end Recorded

theorem members_does (found : List SlotDecl) (body : List TypeMember) : ∃ decls refused,
    Does (members found body) (found ++ decls) id refused ∧ Recorded found body decls refused := by
  induction body generalizing found with
  | nil => exact ⟨[], [], (List.append_nil found).symm ▸ .pure found, by simp, .slnil, nofun, rfl⟩
  | cons member rest ih =>
    have refuse {d : Diagnostic} (isError : d.isError = true) (here : d.region = .span member.span) :
        ∃ decls refused, Does (report d >>= fun _ => members found rest) (found ++ decls) id refused ∧
          Recorded found (member :: rest) decls refused := by
      obtain ⟨decls, refused, does, below⟩ := ih found
      exact ⟨decls, d :: refused, does.behind d, below.refuse isError here⟩
    match member with
    | .other _ | .property none _ _ _ => exact refuse rfl rfl
    | .property (some name) optional type span =>
      rw [members]
      split
      · exact refuse rfl rfl
      · rename_i fresh
        obtain ⟨decls, refused, does, below⟩ := ih (found ++ [⟨name, optional, span⟩])
        rw [List.append_assoc] at does
        exact ⟨⟨name, optional, span⟩ :: decls, refused, does, below.declare rfl (by simpa using fresh)⟩

theorem returnedNames_does (found : List String) (object : List ObjectMember) : ∃ names log,
    Does (returnedNames found object) (found ++ names) id log ∧ names.Sublist (keys object) ∧
      (found.Nodup → (found ++ names).Nodup) := by
  induction object generalizing found with
  | nil => exact ⟨[], [], (List.append_nil found).symm ▸ .pure found, .slnil, by simp⟩
  | cons member rest ih =>
    match member with
    | ⟨none, _⟩ =>
      obtain ⟨names, log, does, facts⟩ := ih found
      exact ⟨names, _, does.behind _, facts⟩
    | ⟨some name, _⟩ =>
      rw [returnedNames]
      split
      · obtain ⟨names, log, does, within, once⟩ := ih found
        exact ⟨names, log, does, within.cons name, once⟩
      · rename_i new
        obtain ⟨names, log, does, within, once⟩ := ih (found ++ [name])
        rw [List.append_assoc] at does once
        refine ⟨name :: names, log, does, within.cons_cons name, fun before => once ?_⟩
        grind

theorem createdNames_does (nameSpan : Span) (body : Option Body) : ∃ names log,
    Does (createdNames nameSpan body) names id log ∧ names.Nodup ∧ names.Sublist (keys body) := by
  match body with
  | none | some ⟨_, none⟩ | some ⟨_, some ⟨none, _⟩⟩ =>
    exact ⟨[], _, (Does.pure []).behind _, .nil, List.nil_sublist _⟩
  | some ⟨_, some ⟨some object, _⟩⟩ =>
    obtain ⟨names, log, does, within, once⟩ := returnedNames_does [] object
    exact ⟨names, log, does, once .nil, by simpa [keys] using within⟩

def Part.names : Part → Contract → List String
  | .props, c => c.props
  | .syncs, c => c.syncs
  | .events, c => c.events
  | .slots, c => (c.slots.getD []).map (·.name)

/-- The members of the section that is inspected for a part: the first one with its name. -/
def Part.body? (part : Part) (parts : List TypeMember) : Option (List TypeMember) :=
  (parts.find? fun m => m.name?.bind Part.ofName? = some part).bind TypeMember.body?

theorem Part.body?_cons (part : Part) (member : TypeMember) (rest : List TypeMember) :
    part.body? (member :: rest) =
      if member.name?.bind Part.ofName? = some part then member.body? else part.body? rest := by
  by_cases named : member.name?.bind Part.ofName? = some part <;> simp [Part.body?, named]

/-- Each member of a section is recorded, once and in order, or has an error in the log: what is recorded and all that
is reported when the section is inspected are as many as its members. -/
structure Accounted (body : List TypeMember) (names : List String) (log : Log) : Prop where
  once : names.Nodup
  ordered : names.Sublist (body.filterMap TypeMember.name?)
  counted : ∃ decls refused, Does (members [] body) decls id refused ∧ names = decls.map (·.name) ∧ refused <:+: log ∧
    (∀ d ∈ refused, d.isError = true ∧ ∃ m ∈ body, d.region = .span m.span) ∧
    body.length = names.length + refused.length

theorem Accounted.mono {body names log log'} (accounted : Accounted body names log) (more : log <:+: log') :
    Accounted body names log' := by
  obtain ⟨decls, refused, does, same, inside, facts⟩ := accounted.counted
  exact ⟨accounted.once, accounted.ordered, decls, refused, does, same, inside.trans more, facts⟩

/-- The contract with what creates the component replaced. -/
def recreated (creation : Option Creation) (c : Contract) : Contract := { c with creation }

/-- The parts are filled with the members of their sections, where they have one, and nothing else is. -/
structure Fills (body? : Part → Option (List TypeMember)) (g : Contract → Contract) (log : Log) : Prop where
  apart : ∀ k c, g (recreated k c) = recreated k (g c)
  marked : ∀ c, c.hasComponent = true → (g c).hasComponent = true
  kept : ∀ part c, body? part = none → part.names (g c) = part.names c
  entered : ∀ part c body, body? part = some body → Accounted body (part.names (g c)) log

namespace Fills

variable {first second third : Part → Option (List TypeMember)} {g g' : Contract → Contract} {log log' : Log}

theorem still (log : Log) : Fills (fun _ => none) id log := ⟨fun _ _ => rfl, fun _ => id, fun _ _ _ => rfl, nofun⟩

theorem trans (before : Fills first g log) (behind : Fills second g' log')
    (split : ∀ part, first part = none ∧ third part = second part ∨ second part = none ∧ third part = first part) :
    Fills third (g' ∘ g) (log ++ log') where
  apart k c := by rw [Function.comp, before.apart, behind.apart]; rfl
  marked c known := behind.marked _ (before.marked c known)
  kept part c none := by
    rcases split part with ⟨no, same⟩ | ⟨no, same⟩
    · exact (behind.kept part _ (same.symm.trans none)).trans (before.kept part c no)
    · exact (behind.kept part _ no).trans (before.kept part c (same.symm.trans none))
  entered part c body some := by
    rcases split part with ⟨no, same⟩ | ⟨no, same⟩
    · exact (behind.entered part _ body (same.symm.trans some)).mono (List.suffix_append ..).isInfix
    · rw [Function.comp, behind.kept part _ no]
      exact (before.entered part c body (same.symm.trans some)).mono (List.prefix_append ..).isInfix

end Fills

theorem section_does (part : Part) (body : List TypeMember) : ∃ g log,
    Does (members [] body >>= enter part) () g log ∧
      Fills (fun other => if other = part then some body else none) g log := by
  obtain ⟨decls, refused, does, recorded⟩ := members_does [] body
  have accounted : Accounted body (decls.map (·.name)) (refused ++ []) :=
    ⟨recorded.once .nil, recorded.ordered, decls, refused, does, rfl, (List.prefix_append ..).isInfix,
      recorded.reported,
      by simpa using recorded.counted⟩
  refine ⟨_, _, does.bind (.amend _), fun k c => ?_, fun c known => ?_, fun other c none => ?_,
    fun other c body' some => ?_⟩
  · cases part <;> rfl
  · cases part <;> exact known
  · cases part <;> cases other <;> first | rfl | simp at none
  · obtain ⟨rfl, rfl⟩ : other = part ∧ body = body' := by grind
    cases other <;> exact accounted

theorem inspectPart_does (part : Part) (name : String) (optional : Bool) (type : Option TypeNode) (span : Span) :
    ∃ g log, Does (inspectPart part name optional type span) () g log ∧ Fills (fun other => if other = part then
      (TypeMember.property (some name) optional type span).body? else none) g log := by
  have empty (log : Log) : Fills (fun other => if other = part then none else none) id log := by
    simp only [ite_self]
    exact .still log
  cases type with
  | none => exact ⟨id, _, (Does.report _).whenever, empty _⟩
  | some node =>
    cases node with
    | other _ => exact ⟨id, _, (Does.report _).whenever, empty _⟩
    | literal body _ =>
      obtain ⟨g, log, does, fills⟩ := section_does part body
      exact ⟨g, _, does.whenever, (Fills.still _).trans fills fun _ => .inl ⟨rfl, rfl⟩⟩

theorem inspectParts_does (seen : List Part) (list : List TypeMember) : ∃ g log,
    Does (inspectParts seen list) () g log ∧
      Fills (fun part => if part ∈ seen then none else part.body? list) g log := by
  induction list generalizing seen with
  | nil => exact ⟨id, [], .pure (), (Fills.still []).trans (.still []) (by simp [Part.body?])⟩
  | cons member rest ih =>
    have skip (d : Diagnostic) (unnamed : ∀ part ∉ seen, member.name?.bind Part.ofName? ≠ some part) :
        ∃ g log, Does (report d >>= fun _ => inspectParts seen rest) () g log ∧
          Fills (fun part => if part ∈ seen then none else part.body? (member :: rest)) g log := by
      obtain ⟨g, log, does, fills⟩ := ih seen
      refine ⟨g, d :: log, does.behind d, (Fills.still [d]).trans fills fun part => .inl ⟨rfl, ?_⟩⟩
      split
      · rfl
      · rename_i new
        rw [Part.body?_cons, if_neg (unnamed part new)]
    match member with
    | .other _ | .property none _ _ _ => exact skip _ nofun
    | .property (some name) optional type span =>
      unfold inspectParts
      split
      · rename_i unknown
        exact skip _ fun part _ => by simp [TypeMember.name?, unknown]
      · rename_i part known
        split
        · exact skip _ fun other new same => new (by grind [TypeMember.name?])
        · rename_i new
          obtain ⟨g, log, does, fills⟩ := inspectPart_does part name optional type span
          obtain ⟨g', log', later, below⟩ := ih (seen ++ [part])
          refine ⟨g' ∘ g, log ++ log', does.bind later, fills.trans below fun other => ?_⟩
          have named : (TypeMember.property (some name) optional type span).name?.bind Part.ofName? = some part := known
          rw [Part.body?_cons, named]
          by_cases own : other = part
          · subst own
            exact .inr ⟨by simp, by rw [if_neg (by simpa using new), if_pos rfl, if_pos rfl]⟩
          · exact .inl ⟨if_neg own, by simp [own, Ne.symm own]⟩

theorem inspectComponent_run (nameSpan : Span) (type : TypeNode) (exported : Bool) : ∃ g log,
    Fills (fun part => match type with | .literal parts _ => part.body? parts | .other _ => none) g log ∧
    (∀ c, (g c).hasComponent = true) ∧
    ∀ f, ((inspectComponent nameSpan type exported).run f).2 = if f.contract.hasComponent = true then
      ⟨f.contract, f.log ++ [.errorAt .componentDuplicateType nameSpan "`Component` is declared more than once"]⟩
      else ⟨g f.contract, f.log ++ log⟩ := by
  have marks (log : Log) : Fills (fun _ => none) (fun c => { c with hasComponent := true }) log :=
    ⟨fun _ _ => rfl, fun _ _ => rfl, fun part _ _ => by cases part <;> rfl, nofun⟩
  have typed : ∃ g log, Does (match type with
      | .literal parts _ => inspectParts [] parts
      | .other span => error .componentTypeNotLiteral span "`Component` must be an object type literal") () g log ∧
      Fills (fun part => match type with | .literal parts _ => part.body? parts | .other _ => none) g log := by
    match type with
    | .literal parts _ => exact inspectParts_does [] parts
    | .other _ => exact ⟨id, _, .report _, .still _⟩
  obtain ⟨g, log, does, fills⟩ := typed
  refine ⟨fun c => g { c with hasComponent := true }, _, ?_, fun c => fills.marked _ rfl,
    fun f => ((Does.amend _).bind does.whenever).otherwise f⟩
  exact (marks _).trans ((Fills.still _).trans fills fun _ => .inl ⟨rfl, rfl⟩) fun _ => .inl ⟨rfl, rfl⟩

theorem inspectCreate_run (name : String) (nameSpan : Span) (body : Option Body) (exported : Bool) : ∃ creation log,
    (∀ names, creation = .members names → names.Nodup ∧ names.Sublist (keys body)) ∧
    ∀ f, ((inspectCreate name nameSpan body exported).run f).2 = if f.contract.creation.isSome = true then
      ⟨f.contract, f.log ++ [.errorAt .componentConflictingCreate nameSpan
        "a component declares at most one `create` or `createCtx` function"]⟩
      else ⟨recreated (some creation) f.contract, f.log ++ log⟩ := by
  have made : ∃ creation log, (∀ names, creation = .members names → names.Nodup ∧ names.Sublist (keys body)) ∧
      Does (if name = "createCtx" then amend (recreated (some .context))
        else createdNames nameSpan body >>= fun names => amend (recreated (some (.members names)))) ()
        (recreated (some creation)) log := by
    split
    · exact ⟨.context, [], nofun, .amend _⟩
    · obtain ⟨names, log, does, once, within⟩ := createdNames_does nameSpan body
      refine ⟨.members names, _, ?_, does.reads (.amend _)⟩
      rintro _ ⟨⟩
      exact ⟨once, within⟩
  obtain ⟨creation, log, lists, does⟩ := made
  exact ⟨creation, _, lists, does.whenever.otherwise⟩

theorem inspectItems_log (items : List Item) (f : Finding) :
    ((inspectItems items).run f).2 =
      ⟨((inspectItems items).run ⟨f.contract, []⟩).2.contract,
        f.log ++ ((inspectItems items).run ⟨f.contract, []⟩).2.log⟩ := by
  have commutes : Commutes (moved f.log id) id _ _ := inspectItems_respan items
  have ran := commutes ⟨f.contract, []⟩
  rw [map_respan_fixed (f := id) fun _ _ => rfl, moved, moved, Contract.respan_id, Contract.respan_id, Log.respan_id,
    Log.respan_id, List.append_nil] at ran
  exact congrArg Prod.snd ran

theorem inspectItems_append (before after : List Item) (f : Finding) :
    ((inspectItems (before ++ after)).run f).2 = ((inspectItems after).run ((inspectItems before).run f).2).2 := by
  induction before generalizing f with
  | nil => rfl
  | cons item rest ih => exact ih _

end Inspect

def Item.isComponent : Item → Bool
  | ⟨.typeAlias name _ _, _⟩ => name = "Component"
  | _ => false

def Item.isCreate : Item → Bool
  | ⟨.function name _ _, _⟩ => name = "create" || name = "createCtx"
  | _ => false

def Item.body? (part : Inspect.Part) : Item → Option (List TypeMember)
  | ⟨.typeAlias _ _ (.literal parts _), _⟩ => part.body? parts
  | _ => none

namespace Inspect

theorem inspectItem_component {item : Item} (own : item.isComponent = true) : ∃ g log,
    Fills (item.body? ·) g log ∧ (∀ c, (g c).hasComponent = true) ∧ ∀ f, ∃ d, ((inspectItem item).run f).2 =
      if f.contract.hasComponent = true then ⟨f.contract, f.log ++ [d]⟩ else ⟨g f.contract, f.log ++ log⟩ := by
  obtain ⟨declaration, exported⟩ := item
  match declaration with
  | .typeAlias name nameSpan type =>
    obtain ⟨g, log, fills, marked, run⟩ := inspectComponent_run nameSpan type exported
    have named : inspectItem ⟨.typeAlias name nameSpan type, exported⟩ = inspectComponent nameSpan type exported :=
      if_pos (of_decide_eq_true own)
    exact ⟨g, log, by cases type <;> exact fills, marked, fun f => ⟨_, named ▸ run f⟩⟩

theorem inspectItem_create {item : Item} (own : item.isCreate = true) : ∃ creation log,
    (∀ names, creation = .members names → names.Nodup ∧ names.Sublist (keys item)) ∧
    ∀ f, ∃ d, ((inspectItem item).run f).2 = if f.contract.creation.isSome = true then ⟨f.contract, f.log ++ [d]⟩
      else ⟨recreated (some creation) f.contract, f.log ++ log⟩ := by
  obtain ⟨declaration, exported⟩ := item
  match declaration with
  | .function name nameSpan body =>
    obtain ⟨creation, log, lists, run⟩ := inspectCreate_run name nameSpan body exported
    have named : inspectItem ⟨.function name nameSpan body, exported⟩ = inspectCreate name nameSpan body exported :=
      if_pos own
    exact ⟨creation, log, lists, fun f => ⟨_, named ▸ run f⟩⟩

theorem inspectItem_other {item : Item} (f : Finding) (component : item.isComponent = false)
    (create : item.isCreate = false) : ((inspectItem item).run f).2.contract = f.contract := by
  obtain ⟨declaration, exported⟩ := item
  match declaration with
  | .typeAlias name nameSpan type =>
    have skipped : inspectItem ⟨.typeAlias name nameSpan type, exported⟩ = pure () :=
      if_neg (of_decide_eq_false component)
    exact skipped ▸ rfl
  | .interface name nameSpan =>
    unfold inspectItem
    dsimp only
    split <;> rfl
  | .function name nameSpan body =>
    have skipped : inspectItem ⟨.function name nameSpan body, exported⟩ = pure () := if_neg (Bool.eq_false_iff.1 create)
    exact skipped ▸ rfl
  | .other => rfl

/-- What `view` shows of the contract is settled by the first item that is `mine`. -/
structure Settles {γ : Type} (view : Contract → γ) (mine : Item → Bool) (settled : Contract → Bool) : Prop where
  shown : ∀ c c', view c = view c' → settled c = settled c'
  other : ∀ item f, mine item = false → view ((inspectItem item).run f).2.contract = view f.contract
  own : ∀ item, mine item = true → ∃ g : Contract → Contract, (∀ c, settled (g c) = true) ∧
    (∀ c c', view c = view c' → view (g c) = view (g c')) ∧
    ∀ f, ((inspectItem item).run f).2.contract = if settled f.contract = true then f.contract else g f.contract

namespace Settles

variable {γ : Type} {view : Contract → γ} {mine : Item → Bool} {settled : Contract → Bool} {item : Item}
  {f : Finding}

theorem done (settles : Settles view mine settled) (own : mine item = true) :
    settled ((inspectItem item).run f).2.contract = true := by
  obtain ⟨g, done, _, run⟩ := settles.own item own
  rw [run]
  split
  · assumption
  · exact done _

theorem alike (settles : Settles view mine settled) {f' : Finding} (own : mine item = true)
    (same : view f.contract = view f'.contract) :
    view ((inspectItem item).run f).2.contract = view ((inspectItem item).run f').2.contract := by
  obtain ⟨g, _, alike, run⟩ := settles.own item own
  rw [run, run, settles.shown _ _ same]
  split
  · exact same
  · exact alike _ _ same

theorem kept (settles : Settles view mine settled) (items : List Item) (known : settled f.contract = true) :
    view ((inspectItems items).run f).2.contract = view f.contract := by
  induction items generalizing f with
  | nil => rfl
  | cons item rest ih =>
    have same : view ((inspectItem item).run f).2.contract = view f.contract := by
      cases own : mine item with
      | true =>
        obtain ⟨g, _, _, run⟩ := settles.own item own
        rw [run, if_pos known]
      | false => exact settles.other item f own
    exact (ih ((settles.shown _ _ same).trans known)).trans same

theorem first (settles : Settles view mine settled) (items : List Item) (f : Finding) :
    view ((inspectItems items).run f).2.contract =
      view ((inspectItems (items.find? mine).toList).run f).2.contract := by
  induction items generalizing f with
  | nil => rfl
  | cons item rest ih =>
    cases own : mine item with
    | true =>
      rw [List.find?_cons_of_pos own]
      exact settles.kept rest (settles.done own)
    | false =>
      rw [List.find?_cons_of_neg (Bool.eq_false_iff.1 own)]
      have same := settles.other item f own
      refine (ih _).trans ?_
      cases found : rest.find? mine with
      | none => exact same
      | some next => exact settles.alike (List.find?_some found) same

theorem reached (settles : Settles view mine settled) {items : List Item} (some : items.any mine = true) :
    settled ((inspectItems items).run f).2.contract = true := by
  obtain ⟨item, found⟩ := Option.isSome_iff_exists.1 (List.find?_isSome.2 (List.any_eq_true.1 some))
  have same := settles.first items f
  rw [found] at same
  exact (settles.shown _ _ same).trans (settles.done (List.find?_some found))

end Settles

theorem component_settles : Settles (recreated none) Item.isComponent Contract.hasComponent where
  shown _ _ same := by
    have marked := congrArg Contract.hasComponent same
    exact marked
  other item f own := by
    cases create : item.isCreate with
    | false => rw [inspectItem_other f own create]
    | true =>
      obtain ⟨creation, log, _, run⟩ := inspectItem_create create
      obtain ⟨d, run⟩ := run f
      rw [run]
      split <;> rfl
  own item own := by
    obtain ⟨g, log, fills, marked, run⟩ := inspectItem_component own
    refine ⟨g, marked, fun c c' same => ?_, fun f => ?_⟩
    · rw [← fills.apart, same, fills.apart]
    · obtain ⟨d, run⟩ := run f
      rw [run]
      split <;> rfl

theorem create_settles : Settles Contract.creation Item.isCreate (·.creation.isSome) where
  shown _ _ same := congrArg Option.isSome same
  other item f own := by
    cases component : item.isComponent with
    | false => rw [inspectItem_other f component own]
    | true =>
      obtain ⟨g, log, fills, marked, run⟩ := inspectItem_component component
      obtain ⟨d, run⟩ := run f
      rw [run]
      split
      · rfl
      · have kept := congrArg Contract.creation (fills.apart f.contract.creation f.contract)
        exact kept
  own item own := by
    obtain ⟨creation, log, _, run⟩ := inspectItem_create own
    refine ⟨recreated (some creation), fun _ => rfl, fun _ _ _ => rfl, fun f => ?_⟩
    obtain ⟨d, run⟩ := run f
    rw [run]
    split <;> rfl

theorem inspectItems_fills (items : List Item) {f : Finding} (fresh : f.contract.hasComponent = false) (part : Part) :
    ((items.find? Item.isComponent).bind (Item.body? part) = none →
      part.names ((inspectItems items).run f).2.contract = part.names f.contract) ∧
    ∀ body, (items.find? Item.isComponent).bind (Item.body? part) = some body →
      Accounted body (part.names ((inspectItems items).run f).2.contract) ((inspectItems items).run f).2.log := by
  have shown (c : Contract) : part.names c = part.names (recreated none c) := by cases part <;> rfl
  induction items generalizing f with
  | nil => exact ⟨fun _ => rfl, nofun⟩
  | cons item rest ih =>
    cases own : item.isComponent with
    | false =>
      have same := component_settles.other item f own
      rw [List.find?_cons_of_neg (Bool.eq_false_iff.1 own), shown f.contract, ← same, ← shown]
      exact ih ((congrArg Contract.hasComponent same).trans fresh)
    | true =>
      obtain ⟨g, log, fills, marked, run⟩ := inspectItem_component own
      obtain ⟨d, run⟩ := run f
      rw [if_neg (Bool.eq_false_iff.1 fresh)] at run
      have later :
          ((inspectItems (item :: rest)).run f).2 = ((inspectItems rest).run ⟨g f.contract, f.log ++ log⟩).2 := by
        rw [← run]
        rfl
      have kept := component_settles.kept rest (f := ⟨g f.contract, f.log ++ log⟩) (marked _)
      rw [List.find?_cons_of_pos own, later, shown, kept, ← shown, inspectItems_log]
      refine ⟨fills.kept part f.contract, fun body some => (fills.entered part f.contract body some).mono ?_⟩
      exact (List.suffix_append ..).isInfix.trans (List.prefix_append ..).isInfix

theorem inspectItems_creation {items : List Item} {f : Finding} {names : List String}
    (fresh : f.contract.creation = none)
    (created : ((inspectItems items).run f).2.contract.creation = some (.members names)) :
    names.Nodup ∧ names.Sublist (keys (items.find? Item.isCreate)) := by
  rw [create_settles.first] at created
  cases found : items.find? Item.isCreate with
  | none =>
    rw [found] at created
    exact nomatch fresh.symm.trans created
  | some item =>
    obtain ⟨creation, log, lists, run⟩ := inspectItem_create (List.find?_some found)
    obtain ⟨d, run⟩ := run f
    have made : ((inspectItem item).run f).2.contract.creation = some (.members names) := by rwa [found] at created
    rw [run, if_neg (by simp [fresh])] at made
    have whole : keys (some item) = keys item := List.append_nil _
    exact whole ▸ lists names (Option.some.inj made)

/-- The second inspection finds what the first does, and one diagnostic more. -/
def Adds (d : Diagnostic) (first second : Contract × Log) : Prop :=
  second.1 = first.1 ∧ ∃ log log', first.2 = log ++ log' ∧ second.2 = log ++ d :: log'

theorem contractOf_adds {before after : List Item} {item : Item} {d : Diagnostic} {log : Log} {f : Finding}
    (reached : ((inspectItems before).run { log }).2 = f)
    (adds : ((inspectItem item).run f).2 = ⟨f.contract, f.log ++ [d]⟩) :
    Adds d (contractOf (before ++ after) log) (contractOf (before ++ item :: after) log) := by
  have first := inspectItems_append before after { log }
  have second := inspectItems_append before (item :: after) { log }
  have step :
      ((inspectItems (item :: after)).run f).2 = ((inspectItems after).run ((inspectItem item).run f).2).2 := rfl
  rw [reached, inspectItems_log after f] at first
  rw [reached, step, adds, inspectItems_log after ⟨_, _⟩] at second
  refine ⟨?_, f.log, ((inspectItems after).run ⟨f.contract, []⟩).2.log, congrArg Finding.log first, ?_⟩
  · exact (congrArg Finding.contract second).trans (congrArg Finding.contract first).symm
  · exact (congrArg Finding.log second).trans (List.append_assoc ..)

end Inspect

open Inspect Text

/-- The names that `create` gives back are keys of an object literal, and so words or strings of the script. -/
theorem inspect_created {text base log names}
    (created : (inspect text base log).1.creation = some (.members names)) :
    ∀ name ∈ names, Spelled (Cursor.start text base) name := by
  unfold inspect at created
  split at created
  · rename_i items parsed
    intro name mem
    have listed := (inspectItems_creation rfl created).2.subset mem
    obtain ⟨item, found, key⟩ := List.mem_flatMap.1 listed
    have among := List.mem_of_find?_eq_some (Option.mem_toList.1 found)
    exact (parse_placed parsed).spelled name (List.mem_flatMap.2 ⟨item, among, key⟩)
  · cases created

end ComponentCompiler.Script
