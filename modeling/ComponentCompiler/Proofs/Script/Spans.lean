import ComponentCompiler.Proofs.Script.Reads
import ComponentCompiler.Script.Grammar.Module

/-!
# Spans and keys of scripts

Main statement: `parse_placed`.
-/

-- The size of an instance doubles with every step that a reader takes one after the other.
set_option synthInstance.maxSize 200000

namespace ComponentCompiler.Script

open Text Read

mutual

def TypeNode.spans : TypeNode → List Span
  | .literal members s => s :: memberSpans members
  | .other s => [s]

def TypeMember.spans : TypeMember → List Span
  | .property _ _ type s => s :: typeSpans type
  | .other s => [s]

def typeSpans : Option TypeNode → List Span
  | none => []
  | some type => type.spans

def memberSpans : List TypeMember → List Span
  | [] => []
  | member :: members => member.spans ++ memberSpans members

end

instance : HasTraces TypeNode where
  spans := TypeNode.spans

instance : HasTraces TypeMember where
  spans := TypeMember.spans

instance : HasTraces ObjectMember := ⟨fun m => [m.span], fun m => m.name.toList⟩

instance : HasTraces Returned := ⟨fun r => r.span :: spans r.object, fun r => keys r.object⟩

instance : HasTraces Body := ⟨fun b => b.span :: spans b.result, fun b => keys b.result⟩

def Declaration.spans : Declaration → List Span
  | .typeAlias _ nameSpan type => nameSpan :: type.spans
  | .interface _ nameSpan => [nameSpan]
  | .function _ nameSpan body => nameSpan :: HasTraces.spans body
  | .other => []

def Declaration.keys : Declaration → List String
  | .function _ _ body => HasTraces.keys body
  | .typeAlias .. | .interface .. | .other => []

instance : HasTraces Declaration := ⟨Declaration.spans, Declaration.keys⟩

instance : HasTraces Item := ⟨fun i => spans i.declaration, fun i => keys i.declaration⟩

instance : HasTraces Operand := ⟨fun o => spans o.object, fun o => keys o.object⟩

instance : HasTraces Grammar.Operation := ⟨fun o => spans o.last, fun o => keys o.last⟩

def Statement.spans : Statement → List Span
  | .returned r => HasTraces.spans r
  | .declared d => HasTraces.spans d
  | .other => []

def Statement.keys : Statement → List String
  | .returned r => HasTraces.keys r
  | .declared d => HasTraces.keys d
  | .other => []

instance : HasTraces Statement := ⟨Statement.spans, Statement.keys⟩

section

variable {o : Cursor}

theorem memberSpans_eq (members : List TypeMember) : memberSpans members = spans members := by
  induction members with
  | nil => rfl
  | cons member members ih =>
    rw [memberSpans, ih]
    rfl

theorem typeSpans_eq (type : Option TypeNode) : typeSpans type = spans type := by
  cases type with
  | none => rfl
  | some type => simp [typeSpans, HasTraces.spans]

theorem Placed.cons {s rest} [first : Placed o s] (others : ∀ s ∈ rest, o.Reaches s) :
    ∀ x ∈ s :: rest, o.Reaches x := List.forall_mem_cons.2 ⟨first.reached s (List.mem_singleton.2 rfl), others⟩

theorem Placed.of_eq {α β : Type} [HasTraces α] [HasTraces β] {a : α} {b : β} (other : Placed o b)
    (spanned : spans a = spans b)
    (keyed : keys a = keys b) : Placed o a := ⟨spanned ▸ other.reached, keyed ▸ other.spelled⟩

instance (s : Span) [here : Placed o s] : Placed o (TypeNode.other s) := here.of_eq rfl rfl

instance (members : List TypeMember) (s : Span) [inner : Placed o members] [Placed o s] :
    Placed o (TypeNode.literal members s) :=
  ⟨Placed.cons (memberSpans_eq members ▸ inner.reached), List.forall_mem_nil _⟩

instance (s : Span) [here : Placed o s] : Placed o (TypeMember.other s) := here.of_eq rfl rfl

instance (name : Option String) (optional : Bool) (type : Option TypeNode) (s : Span) [inner : Placed o type]
    [Placed o s] : Placed o (TypeMember.property name optional type s) :=
  ⟨Placed.cons (typeSpans_eq type ▸ inner.reached), List.forall_mem_nil _⟩

abbrev named : HasTraces String := ⟨fun _ => [], fun name => [name]⟩

theorem placed_named {name} (spelled : ∀ text ∈ name, Spelled o text) : @Placed _ o (@optional _ named) name := by
  refine @Placed.mk _ _ (@optional _ named) _ ?_ ?_
  · simp [spans]
  · simpa [keys] using spelled

instance (name : Option String) (s : Span) [key : @Placed _ o (@optional _ named) name] [here : Placed o s] :
    Placed o (ObjectMember.mk name s) :=
  ⟨here.reached, fun text mem => key.spelled text (List.mem_flatMap.2 ⟨text, mem, List.mem_singleton.2 rfl⟩)⟩

instance (object : Option (List ObjectMember)) (s : Span) [inner : Placed o object] [Placed o s] :
    Placed o (Returned.mk object s) := ⟨Placed.cons inner.reached, inner.spelled⟩

instance (s : Span) (result : Option Returned) [Placed o s] [inner : Placed o result] : Placed o (Body.mk s result) :=
  ⟨Placed.cons inner.reached, inner.spelled⟩

instance (name : String) (s : Span) (type : TypeNode) [Placed o s] [inner : Placed o type] :
    Placed o (Declaration.typeAlias name s type) := ⟨Placed.cons inner.reached, List.forall_mem_nil _⟩

instance (name : String) (s : Span) [here : Placed o s] : Placed o (Declaration.interface name s) := here.of_eq rfl rfl

instance (name : String) (s : Span) (body : Option Body) [Placed o s] [inner : Placed o body] :
    Placed o (Declaration.function name s body) := ⟨Placed.cons inner.reached, inner.spelled⟩

instance : Placed o Declaration.other := .of_nil rfl rfl

instance (d : Declaration) (exported : Bool) [inner : Placed o d] : Placed o (Item.mk d exported) := inner.of_eq rfl rfl

instance (object : Option (List ObjectMember)) (target : Target) (defaulted isUnary isName optional : Bool)
    [inner : Placed o object] : Placed o (Operand.mk object target defaulted isUnary isName optional) :=
      inner.of_eq rfl rfl

instance (operand : Operand) [inner : Placed o operand] : Placed o operand.object := inner.of_eq rfl rfl

instance (last : Operand) (combined hasNullish hasLogical : Bool) [inner : Placed o last] :
    Placed o (Grammar.Operation.mk last combined hasNullish hasLogical) := inner.of_eq rfl rfl

instance (operation : Grammar.Operation) [inner : Placed o operation] : Placed o operation.last := inner.of_eq rfl rfl

instance (r : Returned) [inner : Placed o r] : Placed o (Statement.returned r) := inner.of_eq rfl rfl

instance (d : Declaration) [inner : Placed o d] : Placed o (Statement.declared d) := inner.of_eq rfl rfl

instance : Placed o Statement.other := .of_nil rfl rfl

end

class Grammar.Sound (g : Grammar) : Prop where
  type : ∀ T ctx, Reads T (g.type ctx)
  assignment : ∀ T ctx, Reads T (g.assignment ctx)
  unary : ∀ T ctx, Reads T (g.unary ctx)
  constructor : ∀ T ctx, Reads T (g.constructor ctx)
  binding : ∀ T ctx, Reads T (g.binding ctx)
  statement : ∀ T ctx, Reads T (g.statement ctx)
  item : ∀ T ctx, Reads T (g.item ctx)

namespace Grammar

variable {T : Trail} {g : Grammar} {ctx : Context} [g.Sound]

instance : Reads T (g.type ctx) := Sound.type T ctx

instance : Reads T (g.assignment ctx) := Sound.assignment T ctx

instance : Reads T (g.unary ctx) := Sound.unary T ctx

instance : Reads T (g.constructor ctx) := Sound.constructor T ctx

instance : Reads T (g.binding ctx) := Sound.binding T ctx

instance : Reads T (g.statement ctx) := Sound.statement T ctx

instance : Reads T (g.item ctx) := Sound.item T ctx

instance : Reads T ( g.annotation ctx) := by
  unfold annotation
  infer_instance

instance : Reads T ( g.skipAnnotation ctx) := by
  unfold skipAnnotation
  infer_instance

instance : Reads T (g.typeParameter ctx) := by
  unfold typeParameter
  infer_instance

instance : Reads T (g.typeParameters ctx) := by
  unfold typeParameters
  infer_instance

instance : Reads T (g.skipTypeParameters ctx) := by
  unfold skipTypeParameters
  infer_instance

instance : Passing T (g.typeArguments ctx) := by
  unfold typeArguments
  infer_instance

instance : Reads T (g.signatureParameter ctx) := by
  unfold signatureParameter
  infer_instance

instance : Passing T (g.signatureParameters ctx) := by
  unfold signatureParameters
  infer_instance

instance : Reads T (g.returnType ctx) := by
  unfold returnType
  refine .bind inferInstance fun _ _ => .choose inferInstance (fun _ _ => inferInstance) fun _ _ => ?_
  refine .bind (.bind inferInstance fun token _ => ?_) fun _ _ => inferInstance
  split <;> infer_instance

instance : Reads T (g.skipResult ctx) := by
  unfold skipResult
  infer_instance

instance : Passing T (g.signature ctx) := by
  unfold signature
  infer_instance

instance : Reads T memberEnd := by
  unfold memberEnd
  infer_instance

instance : Passing T (g.memberKey ctx) := by
  unfold memberKey
  refine .behind fun token _ => ?_
  split <;> infer_instance

theorem memberKey_named : @Passing T _ (@optional _ named) (g.memberKey ctx) := by
  refine @Passing.mk _ _ (@optional _ named) _ ?_
  intro s key t holds ran
  have passed := (Passing.passes holds ran).1
  have here := Trail.token holds
  refine ⟨passed, placed_named ?_⟩
  obtain ⟨_, _, look, ran⟩ := run_bind ran
  cases look
  split at ran
  · rename_i name escaped word
    obtain ⟨_, _, -, done⟩ := run_bind ran
    cases done
    rintro _ ⟨⟩
    exact .inl ⟨escaped, word ▸ here⟩
  · rename_i raw string
    obtain ⟨_, _, -, done⟩ := run_bind ran
    cases done
    rintro _ ⟨⟩
    exact .inr (string ▸ here)
  · obtain ⟨_, _, -, done⟩ := run_bind ran
    cases done
    simp
  · obtain ⟨_, _, -, ran⟩ := run_bind ran
    obtain ⟨_, _, -, ran⟩ := run_bind ran
    obtain ⟨_, _, -, done⟩ := run_bind ran
    cases done
    simp
  · cases ran

instance (name : String) : Reads T (acceptModifier name) := by
  unfold acceptModifier
  infer_instance

instance : Passing T (g.indexSignature ctx) := by
  unfold indexSignature
  infer_instance

instance : Passing T (g.accessorSignature ctx) := by
  unfold accessorSignature
  infer_instance

instance (s : Stream) (isReadonly : Bool) :
    Passing (T.since s) (g.propertySignature ctx s.current.origin.pos isReadonly) := by
  unfold propertySignature
  infer_instance

instance : Passing T (g.typeMember ctx) := by
  unfold typeMember
  refine passing_start fun s => ?_
  infer_instance

instance : Passing T (g.typeMembers ctx) := by
  unfold typeMembers
  infer_instance

instance : Passing T (g.mappedType ctx) := by
  unfold mappedType
  infer_instance

instance : Passing T entityName := by
  unfold entityName
  refine .bind inferInstance fun _ _ => .bind inferInstance fun _ _ => .bind (reads_many ?_) fun _ _ => inferInstance
  refine .choose inferInstance (fun _ _ => .bind inferInstance fun token _ => ?_) fun _ _ => inferInstance
  split <;> infer_instance

instance : Reads T (g.skipTypeArguments ctx) := by
  unfold skipTypeArguments
  infer_instance

instance : Passing T (g.importType ctx) := by
  unfold importType
  infer_instance

instance : Reads T (g.tupleElement ctx) := by
  unfold tupleElement
  infer_instance

/-- A state that says from where to go on, if at all: every step from a place that reading leads to passes something. -/
theorem iterate_passes {step : Option Cursor → Read (Option (Option Cursor))}
    (each : ∀ {s c next t}, T.Holds s → s.current.origin.Leads c → (step (some c)).run s = some (next, t) →
      Passed s t ∧ ∃ stop, next = some stop ∧ ∀ d ∈ stop, t.current.origin.Leads d) (ends : step none = pure none)
    {n s t c stop} (holds : T.Holds s) (behind : s.current.origin.Leads c)
    (ran : (iterate.go step n (some c)).run s = some (stop, t)) : Passed s t := by
  induction n generalizing s c with
  | zero => cases ran
  | succ n ih =>
    obtain ⟨next, u, first, rest⟩ := run_bind ran
    obtain ⟨passed, stop', rfl, on⟩ := each holds behind first
    cases stop' with
    | none =>
      cases n with
      | zero => cases rest
      | succ n =>
        dsimp only [iterate.go] at rest
        rw [ends] at rest
        cases rest
        exact passed
    | some d => exact passed.trans (ih (T.stable holds (.inr passed)) (on d rfl) rest)

instance (tagged : Bool) (substitution : Read Unit) [Reads T substitution] :
    Passing T (templateParts tagged substitution) where
  passes holds ran := by
    obtain ⟨opening, _, look, ran⟩ := run_bind ran
    cases look
    obtain ⟨finished, _, iterated, required⟩ := run_bind ran
    obtain ⟨_, _, look, iterated⟩ := run_bind iterated
    cases look
    have passed := iterate_passes (T := T) ?each rfl holds (Trail.sound holds).2 iterated
    · exact ⟨passed.ahead (Reads.leads (T.stable holds (.inr passed)) required).1, inferInstance⟩
    · intro s c next t holds behind ran
      dsimp only at ran
      split at ran
      · cases ran
      · rename_i after ended
        obtain ⟨_, _, resumed, done⟩ := run_bind ran
        cases done
        exact ⟨resume_passes (behind.trans (partEnd_leads ended)) resumed, none, rfl, by simp⟩
      · rename_i after ended
        obtain ⟨_, _, resumed, ran⟩ := run_bind ran
        have passed := resume_passes (behind.trans (partEnd_leads ended)) resumed
        obtain ⟨_, _, inner, ran⟩ := run_bind ran
        have there := (Reads.leads (T.stable holds (.inr passed)) inner).1
        have holds := T.stable holds (.inr (passed.ahead there))
        obtain ⟨_, _, look, ran⟩ := run_bind ran
        cases look
        split at ran
        · cases ran
          refine ⟨passed.ahead there, _, rfl, fun d mem => ?_⟩
          cases mem
          exact (Trail.sound holds).2
        · cases ran

instance : Passing T (g.simpleType ctx) := by
  unfold simpleType
  refine passing_start fun s => passing_past (.behind fun token _ => ?_) fun members placed => ?_
  · split
    all_goals try infer_instance
    -- Only a number with a sign before it looks at one more lexeme.
    refine .bind inferInstance fun _ _ => .bind inferInstance fun _ _ => ?_
    split <;> infer_instance
  · cases members with
    | none => infer_instance
    | some members =>
      have := placed.of_some
      infer_instance

instance : Passing T (g.arrayType ctx) := by
  unfold arrayType
  refine passing_start fun s => ?_
  infer_instance

instance : Passing T (g.operatorType ctx) := by
  unfold operatorType
  refine passing_start fun s => ?_
  infer_instance

instance (operator : String) (operand : Read TypeNode) [∀ T, Passing T operand] :
    Passing T (combinedType operator operand) := by
  unfold combinedType
  refine passing_start fun s => ?_
  infer_instance

instance : Passing T (g.unionType ctx) := by
  unfold unionType
  infer_instance

instance : Passing T (g.functionHead ctx) := by
  unfold functionHead
  infer_instance

instance : Passing T (g.typeStep ctx) := by
  unfold typeStep
  refine passing_start fun s => ?_
  infer_instance

instance : Reads T (g.skipDefault ctx) := by
  unfold skipDefault
  infer_instance

instance (close : String) : Passing T (g.restElement ctx close) := by
  unfold restElement
  infer_instance

instance : Reads T (g.propertyPattern ctx) := by
  unfold propertyPattern
  refine .choose inferInstance (fun _ _ => inferInstance) fun _ _ => ?_
  refine .bind inferInstance fun key _ => .bind inferInstance fun _ _ => ?_
  refine .choose inferInstance (fun _ _ => inferInstance) fun _ _ => ?_
  split <;> infer_instance

instance : Reads T (g.elementPattern ctx) := by
  unfold elementPattern
  infer_instance

instance : Reads T (g.bindingStep ctx) := by
  unfold bindingStep
  refine .bind inferInstance fun token _ => ?_
  split <;> infer_instance

instance : Reads T skipParameterModifiers := by
  unfold skipParameterModifiers
  refine .bind (reads_many (.bind inferInstance fun word _ => ?_)) fun _ _ => inferInstance
  split <;> infer_instance

instance (ofConstructor : Bool) : Reads T (g.parameter ctx ofConstructor) := by
  unfold parameter
  infer_instance

instance (ofConstructor : Bool) : Passing T (g.parameters ctx ofConstructor) := by
  unfold parameters
  infer_instance

instance : Reads T (g.statements ctx) := by
  unfold statements
  infer_instance

instance : Passing T (g.block ctx) := by
  unfold block
  infer_instance

instance (isAsync isGenerator : Bool) : Passing T (g.functionBody isAsync isGenerator) := by
  unfold functionBody
  refine passing_start fun s => passing_past inferInstance fun list placed => .bind inferInstance fun _ _ => ?_
  split
  · rename_i r last
    have result : Placed (T.past s).base r := (placed_list.1 placed _ (List.mem_of_getLast? last)).of_eq rfl rfl
    infer_instance
  · infer_instance

instance (isAsync isGenerator : Bool) : Passing T (g.functionRest isAsync isGenerator) := by
  unfold functionRest
  infer_instance

instance (isAsync isGenerator : Bool) : Passing T (g.wholeFunction isAsync isGenerator) := by
  unfold wholeFunction
  infer_instance

instance (isAsync isGenerator ofConstructor : Bool) (count : Nat → Bool) :
    Passing T (g.method isAsync isGenerator ofConstructor count) := by
  unfold method
  infer_instance

instance : Reads T (g.heritage ctx) := by
  unfold heritage
  infer_instance

instance : Reads T modifiers := by
  unfold modifiers
  refine reads_many (.bind inferInstance fun word _ => ?_)
  split <;> infer_instance

instance : Passing T (g.classKey ctx) := by
  unfold classKey
  refine .behind fun token _ => ?_
  split <;> infer_instance

instance : Reads T (g.classMember ctx) := by
  unfold classMember
  infer_instance

instance : Passing T (g.classRest ctx) := by
  unfold classRest
  infer_instance

instance : Reads T className? := by
  unfold className?
  infer_instance

instance : Reads T (g.expression ctx) := by
  unfold expression
  infer_instance

instance : Reads T (g.skipExpression ctx) := by
  unfold skipExpression
  infer_instance

instance : Reads T (g.spreadOrElement ctx) := by
  unfold spreadOrElement
  infer_instance

instance : Passing T (g.arrayLiteral ctx) := by
  unfold arrayLiteral
  infer_instance

instance : Reads T objectModifier := by
  unfold objectModifier
  refine .bind inferInstance fun token _ => ?_
  split <;> infer_instance

instance : Passing T (g.objectMember ctx) := by
  unfold objectMember
  refine passing_start fun s => passing_choice (fun _ _ => inferInstance) fun _ _ =>
    .behind fun modifier _ => .behind fun key _ => ?_
  refine .ite (passing_past inferInstance fun _ _ => ?_)
    (@passing_past _ _ _ (@optional _ named) _ _ _ _ memberKey_named ?_)
  · refine @Reads.bind _ _ _ _ _ (@optional _ named) _ inferInstance fun name _ => ?_
    cases key <;> dsimp only <;> infer_instance
  · intro name _
    cases key <;> dsimp only <;> infer_instance

instance : Passing T (g.objectLiteral ctx) := by
  unfold objectLiteral
  infer_instance

instance (tagged : Bool) : Passing T (g.templateLiteral ctx tagged) := by
  unfold templateLiteral
  infer_instance

instance : Passing T regexLiteral where
  passes holds ran := by
    obtain ⟨_, _, look, ran⟩ := run_bind ran
    cases look
    split at ran
    · rename_i after ended
      exact ⟨resume_passes (regexEnd?_leads ended) ran, inferInstance⟩
    · cases ran

instance : Passing T arrow := by
  unfold arrow
  infer_instance

instance (isAsync : Bool) : Passing T (g.arrowHead ctx isAsync) := by
  unfold arrowHead
  infer_instance

instance (isAsync : Bool) : Reads T (g.arrowBody ctx isAsync) := by
  unfold arrowBody
  infer_instance

instance : Passing T bareArrowHead := by
  unfold bareArrowHead
  infer_instance

instance : Reads T (g.arrowHead? ctx) := by
  unfold arrowHead?
  refine .bind inferInstance fun token _ => ?_
  split <;> infer_instance

instance : Passing T (g.arguments ctx) := by
  unfold arguments
  infer_instance

instance : Passing T (g.parenthesized ctx) := by
  unfold parenthesized
  infer_instance

instance (isAsync : Bool) : Passing T (g.functionExpression isAsync) := by
  unfold functionExpression
  infer_instance

instance : Passing T (g.importExpression ctx) := by
  unfold importExpression
  infer_instance

instance (name : String) : Passing T (g.wordOperand ctx name) := by
  unfold wordOperand
  infer_instance

instance : Passing T (g.primary ctx) := by
  unfold primary
  refine .behind fun token _ => ?_
  split <;> infer_instance

instance : Passing T dotMember := by
  unfold dotMember
  refine .behind fun token _ => ?_
  split <;> infer_instance

instance : Passing T (g.bracketMember ctx) := by
  unfold bracketMember
  infer_instance

instance : Reads T startsExpression := by
  unfold startsExpression
  refine .bind inferInstance fun token _ => ?_
  split <;> infer_instance

instance : Passing T (g.callTypeArguments ctx) := by
  unfold callTypeArguments
  infer_instance

instance : Passing T (g.optionalLink ctx) := by
  unfold optionalLink
  refine .behind fun token _ => ?_
  split <;> infer_instance

instance (calls : Bool) (o : Operand) [Placed T.base o] : Reads T (g.link ctx calls o) := by
  unfold link
  refine .bind inferInstance fun token _ => ?_
  split <;> infer_instance

instance : Passing T (g.newExpression ctx) := by
  unfold newExpression
  infer_instance

instance : Passing T (g.constructorStep ctx) := by
  unfold constructorStep
  infer_instance

instance : Passing T (g.chain ctx) := by
  unfold chain
  infer_instance

instance : Passing T (g.assertion ctx) := by
  unfold assertion
  infer_instance

instance : Passing T (g.unaryStep ctx) := by
  unfold unaryStep
  refine .behind fun token _ => ?_
  split <;> infer_instance

instance : Reads T operator? := by
  unfold operator?
  refine .bind inferInstance fun token _ => ?_
  split <;> infer_instance

instance (mark : String) : Passing T (passOperator mark) where
  passes holds ran := by
    obtain ⟨_, _, look, ran⟩ := run_bind ran
    cases look
    exact ⟨resume_passes ⟨_, Cursor.passes_skip _ _⟩ ran, inferInstance⟩

instance (s : Operation) [Placed T.base s] : Passing T (g.typeOperation ctx s) := by
  unfold typeOperation
  infer_instance

instance (s : Operation) [Placed T.base s] : Reads T (g.operation ctx s) := by
  unfold operation
  refine .bind inferInstance fun token _ => ?_
  split
  · infer_instance
  · exact .found inferInstance (fun _ _ => inferInstance) inferInstance

instance : Reads T (g.binary ctx) := by
  unfold binary
  infer_instance

instance : Reads T (g.conditional ctx) := by
  unfold conditional
  infer_instance

instance : Passing T (g.yieldExpression ctx) := by
  unfold yieldExpression
  infer_instance

instance : Reads T (g.assignmentStep ctx) := by
  unfold assignmentStep
  refine .choose inferInstance (fun _ _ => inferInstance) fun _ _ => ?_
  refine .found inferInstance (fun _ _ => inferInstance) (.bind inferInstance fun o _ => ?_)
  exact .found inferInstance (fun _ _ => inferInstance) inferInstance

instance : Reads T (g.variableHead ctx) := by
  unfold variableHead
  infer_instance

instance (isConst isPattern : Bool) : Reads T (g.variableValue ctx isConst isPattern) := by
  unfold variableValue
  infer_instance

instance (isConst : Bool) : Reads T (g.oneVariable ctx isConst) := by
  unfold oneVariable
  infer_instance

instance (isConst : Bool) : Reads T (g.moreVariables ctx isConst) := by
  unfold moreVariables
  infer_instance

instance (isConst : Bool) : Reads T (g.variableList ctx isConst) := by
  unfold variableList
  infer_instance

instance (isAsync : Bool) : Passing T (g.functionDeclaration ctx isAsync) := by
  unfold functionDeclaration
  refine .behind fun _ _ => passing_start fun s => ?_
  infer_instance

instance : Passing T (g.classDeclaration ctx) := by
  unfold classDeclaration
  infer_instance

instance : Passing T (g.typeAlias ctx) := by
  unfold typeAlias
  refine passing_start fun s => ?_
  infer_instance

instance : Passing T (g.interfaceDeclaration ctx) := by
  unfold interfaceDeclaration
  refine passing_start fun s => ?_
  infer_instance

instance : Reads T (g.enumMember ctx) := by
  unfold enumMember
  refine .bind inferInstance fun token _ => ?_
  split <;> infer_instance

instance : Passing T (g.enumDeclaration ctx) := by
  unfold enumDeclaration
  infer_instance

instance : Passing T (g.itemBlock ctx) := by
  unfold itemBlock
  infer_instance

instance : Passing T (g.namespaceDeclaration ctx) := by
  unfold namespaceDeclaration
  infer_instance

instance : Reads T namesNext := by
  unfold namesNext
  infer_instance

instance (names : List String) : Reads T (wordNext names) := by
  unfold wordNext
  infer_instance

instance : Reads T (g.keywordDeclaration? ctx) := by
  unfold keywordDeclaration?
  refine .bind inferInstance fun token _ => ?_
  split <;> infer_instance

instance : Reads T declaresUsed := by
  unfold declaresUsed
  infer_instance

instance : Reads T (g.contextualDeclaration? ctx) := by
  unfold contextualDeclaration?
  refine .bind inferInstance fun token _ => ?_
  split <;> infer_instance

instance : Reads T (g.declaration? ctx) := by
  unfold declaration?
  refine .bind inferInstance fun _ _ => .choose inferInstance (fun _ _ => ?_) fun _ _ => ?_
  · refine .bind inferInstance fun _ _ => .bind inferInstance fun _ _ => ?_
    refine .found inferInstance (fun _ _ => inferInstance) ?_
    exact .found inferInstance (fun _ _ => inferInstance) inferInstance
  · exact .found inferInstance (fun _ _ => inferInstance) inferInstance

instance : Reads T (g.nested ctx) := by
  unfold nested
  refine .bind inferInstance fun word _ => ?_
  split <;> infer_instance

instance : Reads T (g.condition ctx) := by
  unfold condition
  infer_instance

instance : Reads T (g.ifStatement ctx) := by
  unfold ifStatement
  infer_instance

instance : Reads T (g.loopOver ctx) := by
  unfold loopOver
  infer_instance

instance : Reads T (g.loopParts ctx) := by
  unfold loopParts
  infer_instance

instance (isConst : Bool) : Reads T (g.loopVariables ctx isConst) := by
  unfold loopVariables
  infer_instance

instance : Reads T (g.forHead ctx) := by
  unfold forHead
  infer_instance

instance : Reads T (g.forStatement ctx) := by
  unfold forStatement
  infer_instance

instance : Reads T (g.doStatement ctx) := by
  unfold doStatement
  infer_instance

instance : Reads T jumpLabel := by
  unfold jumpLabel
  infer_instance

instance : Reads T (breakStatement ctx) := by
  unfold breakStatement
  refine .bind inferInstance fun label _ => ?_
  split <;> infer_instance

instance : Reads T (continueStatement ctx) := by
  unfold continueStatement
  refine .bind inferInstance fun _ _ => .bind inferInstance fun label _ => ?_
  split <;> infer_instance

instance : Reads T (g.switchCase ctx) := by
  unfold switchCase
  infer_instance

instance : Reads T (g.switchStatement ctx) := by
  unfold switchStatement
  infer_instance

instance : Reads T (g.tryStatement ctx) := by
  unfold tryStatement
  infer_instance

instance (s : Stream) : Reads (T.past s) (g.returnStatement ctx s.current.origin.pos) := by
  unfold returnStatement
  infer_instance

instance : Reads T (g.throwStatement ctx) := by
  unfold throwStatement
  infer_instance

instance : Reads T (g.control? ctx) := by
  unfold control?
  refine reads_start fun s => .bind inferInstance fun word _ => ?_
  split <;> infer_instance

instance : Passing T (g.labelled ctx) := by
  unfold labelled
  infer_instance

instance : Reads T (g.statementStep ctx) := by
  unfold statementStep
  refine .choose inferInstance (fun _ _ => inferInstance) fun _ _ => ?_
  refine .choose inferInstance (fun _ _ => inferInstance) fun _ _ => ?_
  refine .found inferInstance (fun _ _ => inferInstance) ?_
  exact .found inferInstance (fun _ _ => inferInstance) inferInstance

instance : Reads T specifier := by
  unfold specifier
  refine reads_many (.bind inferInstance fun token _ => ?_)
  split <;> infer_instance

instance : Reads T attributes := by
  unfold attributes
  refine .bind inferInstance fun _ _ => .bind inferInstance fun _ _ => .bind inferInstance fun _ _ =>
    .choose inferInstance (fun _ _ => ?_) fun _ _ => inferInstance
  refine .bind inferInstance fun _ _ => .bind inferInstance fun _ _ =>
    .bind (reads_listUntil (.bind inferInstance fun token _ => ?_)) fun _ _ => inferInstance
  split <;> infer_instance

instance : Reads T source := by
  unfold source
  infer_instance

instance : Reads T importsTypes := by
  unfold importsTypes
  infer_instance

instance : Reads T importAlias := by
  unfold importAlias
  infer_instance

instance : Passing T importNames := by
  unfold importNames
  infer_instance

instance : Reads T importDeclaration := by
  unfold importDeclaration
  infer_instance

instance : Reads T exportList := by
  unfold exportList
  refine .choose inferInstance (fun _ _ => ?_) fun _ _ => inferInstance
  refine .choose inferInstance (fun _ _ => .bind inferInstance fun token _ => ?_) fun _ _ => inferInstance
  split <;> infer_instance

instance : Reads T (g.exportDefault ctx) := by
  unfold exportDefault
  infer_instance

instance : Reads T (g.exportDeclaration ctx) := by
  unfold exportDeclaration
  refine .choose inferInstance (fun _ _ => inferInstance) fun _ _ => ?_
  refine .choose inferInstance (fun _ _ => inferInstance) fun _ _ => ?_
  refine .choose inferInstance (fun _ _ => inferInstance) fun _ _ => ?_
  refine .choose inferInstance (fun _ _ => inferInstance) fun _ _ => ?_
  refine .bind inferInstance fun _ _ => .choose inferInstance (fun _ _ => inferInstance) fun _ _ => ?_
  refine .bind inferInstance fun _ _ => .choose inferInstance (fun _ _ => inferInstance) fun _ _ => ?_
  refine .found inferInstance (fun s placed => ?_) inferInstance
  cases s with
  | declared d =>
    have : Placed T.base d := placed.of_eq rfl rfl
    infer_instance
  | returned _ => infer_instance
  | other => infer_instance

instance : Reads T (g.itemStep ctx) := by
  unfold itemStep
  refine .bind inferInstance fun _ _ => .choose inferInstance (fun _ _ => inferInstance) fun _ _ => ?_
  refine .choose inferInstance (fun _ _ => inferInstance) fun _ _ => .bind inferInstance fun s placed => ?_
  cases s with
  | declared d =>
    have : Placed T.base d := placed.of_eq rfl rfl
    infer_instance
  | returned _ => infer_instance
  | other => infer_instance

theorem deep_sound (n : Nat) : (deep n).Sound := by
  induction n with
  | zero => constructor <;> intros <;> exact inferInstanceAs (Reads _ fail)
  | succ n ih =>
    exact
      { type := fun T ctx => inferInstanceAs (Reads T ((deep n).typeStep ctx))
        assignment := fun T ctx => inferInstanceAs (Reads T ((deep n).assignmentStep ctx))
        unary := fun T ctx => inferInstanceAs (Reads T ((deep n).unaryStep ctx))
        constructor := fun T ctx => inferInstanceAs (Reads T ((deep n).constructorStep ctx))
        binding := fun T ctx => inferInstanceAs (Reads T ((deep n).bindingStep ctx))
        statement := fun T ctx => inferInstanceAs (Reads T ((deep n).statementStep ctx))
        item := fun T ctx => inferInstanceAs (Reads T ((deep n).itemStep ctx)) }

end Grammar

theorem items_reads (T : Trail) (length : Nat) : Reads T (items length) := by
  have := Grammar.deep_sound (4 * length + 16)
  unfold items
  infer_instance

theorem skipInterpreter_leads (c : Cursor) : c.Leads (skipInterpreter c) := by
  unfold skipInterpreter
  split
  · exact ⟨_, c.passes_dropWhile _⟩
  · exact .refl c

theorem parse_placed {text base list} (parsed : parse text base = some list) :
    Placed (Cursor.start text base) list := by
  obtain ⟨first, read, parsed⟩ := Option.bind_eq_some_iff.1 parsed
  obtain ⟨⟨found, t⟩, ran, parsed⟩ := Option.bind_eq_some_iff.1 parsed
  cases parsed
  exact ((items_reads (.whole (Cursor.start text base)) _).leads ⟨_, skipInterpreter_leads _, read⟩ ran).2

end ComponentCompiler.Script
