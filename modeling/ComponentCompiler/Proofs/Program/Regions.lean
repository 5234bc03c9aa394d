import ComponentCompiler.Proofs.Check.Blocks
import ComponentCompiler.Proofs.Program.Accepted

/-!
# Regions of blocks

A block has a region of its own exactly if one of its expressions is written with a `:` in front.
-/

namespace ComponentCompiler.Program

open Template

structure Construct where
  kind : BlockKind
  regions : Nat
  expressions : List String
  deriving DecidableEq

def isSingle : List Stmt → Bool
  | [_] => true
  | [.act (.declareSubject _ _), .switch _ _] => true
  | _ => false

def Stmt.subject : Stmt → List String
  | .act (.declareSubject _ value) => [value.text]
  | _ => []

def Branch.expression : Branch → String
  | .mk condition _ => condition.text

mutual

/-- The constructs of a statement that `regions` regions hold alone, behind the declaration of `subject`. -/
def Stmt.constructs (regions : Nat) (subject : List String) : Stmt → List Construct
  | .region _ body => constructs (if isSingle body then regions + 1 else 0) [] body
  | .conditional condition body elseIfs otherwise =>
    ⟨.conditional, regions, condition.text :: elseIfs.map Branch.expression⟩ ::
      (constructs 0 [] body ++ branchConstructs elseIfs ++ otherwiseConstructs otherwise)
  | .loop loop body => ⟨.loop, regions, [loop.collection.code.text]⟩ :: constructs 0 [] body
  | .switch _ clauses =>
    ⟨.switch, regions, subject ++ clauses.flatMap fun c => c.label.expressions⟩ :: clauseConstructs clauses
  | .fallbackSlot _ _ body | .template _ _ body => constructs 0 [] body
  | .component _ _ fillings => fillingConstructs fillings
  | .act _ | .effect _ | .selectOptions _ _ => []

def constructs (regions : Nat) (subject : List String) : List Stmt → List Construct
  | [] => []
  | s :: rest => s.constructs regions subject ++ constructs regions s.subject rest

def otherwiseConstructs : Option (List Stmt) → List Construct
  | none => []
  | some body => constructs 0 [] body

def branchConstructs : List Branch → List Construct
  | [] => []
  | .mk _ body :: branches => constructs 0 [] body ++ branchConstructs branches

def clauseConstructs : List Clause → List Construct
  | [] => []
  | .mk _ body :: clauses => constructs 0 [] body ++ clauseConstructs clauses

def fillingConstructs : List Filling → List Construct
  | [] => []
  | .mk _ body :: fillings => constructs 0 [] body ++ fillingConstructs fillings

end

def constructsOf (statements : List Stmt) : List Construct := constructs 0 [] statements

def generated (b : Block Operand) : Construct :=
  ⟨b.kind, if b.expressions.any (·.reactive) then 1 else 0, b.expressions.map (·.code)⟩

def Shows (s : List Stmt) (bs : List (Block Operand)) : Prop :=
  ∀ subject, constructs 0 subject s = bs.map generated

def Quiet (s : Stmt) : Prop := ∀ regions subject, s.constructs regions subject = []

section

variable {a b s inner : List Stmt} {x y : List (Block Operand)} {place : Place} {path : Path}

def subjectAfter (subject : List String) : List Stmt → List String
  | [] => subject
  | s :: rest => subjectAfter s.subject rest

theorem constructs_append (regions : Nat) (subject : List String) (a b : List Stmt) :
    constructs regions subject (a ++ b) = constructs regions subject a ++
      constructs regions (subjectAfter subject a) b := by
  induction a generalizing subject with
  | nil => rfl
  | cons s a ih => simp [constructs, subjectAfter, ih]

theorem Shows.nil : Shows [] [] := fun _ => rfl

theorem Shows.append (first : Shows a x) (second : Shows b y) : Shows (a ++ b) (x ++ y) := by
  intro subject
  rw [constructs_append, List.map_append, first, second]

theorem Shows.ended (h : Shows s x) (last : Shows b []) : Shows (s ++ b) x := by
  have whole := h.append last
  rwa [List.append_nil] at whole

theorem Shows.quiet (h : ∀ statement ∈ s, Quiet statement) : Shows s [] := by
  intro subject
  induction s generalizing subject with
  | nil => rfl
  | cons first s ih =>
    obtain ⟨here, others⟩ := List.forall_mem_cons.1 h
    rw [constructs, here, List.nil_append]
    exact ih others _

theorem following_quiet (liveness : Liveness) (action : Action) : Quiet (following liveness action) := by
  unfold following
  split <;> exact fun _ _ => rfl

theorem opening_quiet (e : Temp) (tag : Tag) : ∀ statement ∈ openingStatements e tag, Quiet statement := by
  simp only [openingStatements, List.mem_append, List.mem_cons, List.mem_map]
  rintro statement (((rfl | ⟨id, -, rfl⟩) | ⟨b, -, rfl⟩) | ⟨l, -, rfl⟩)
  · exact fun _ _ => rfl
  · exact fun _ _ => rfl
  · exact following_quiet _ _
  · exact fun _ _ => rfl

theorem sync_quiet (e : Temp) (kind : SyncKind) (signal : Code) :
    ∀ statement ∈ syncStatements e kind signal, Quiet statement := by
  intro statement mem
  unfold syncStatements at mem
  split at mem <;> simp only [List.mem_cons, List.not_mem_nil, or_false] at mem
  · subst mem
    exact fun _ _ => rfl
  · subst mem
    exact fun _ _ => rfl
  · rcases mem with rfl | rfl <;> exact fun _ _ => rfl
  · rcases mem with rfl | rfl <;> exact fun _ _ => rfl
  · subst mem
    exact fun _ _ => rfl

theorem closing_quiet {e tag sync} (quiet : ∀ statement ∈ sync, Quiet statement) :
    ∀ statement ∈ closingStatements e tag sync place, Quiet statement := by
  simp only [closingStatements, List.mem_append, List.mem_cons, List.mem_map, List.not_mem_nil, or_false]
  rintro statement ((mem | ⟨r, -, rfl⟩) | rfl)
  · exact quiet statement mem
  · exact fun _ _ => rfl
  · exact fun _ _ => rfl

theorem element_shows {e tag sync} (quiet : ∀ statement ∈ sync, Quiet statement) (h : Shows s x) :
    Shows (elementStatements e tag sync place s) x := by
  have before : Shows (openingStatements e tag) [] := Shows.quiet (opening_quiet e tag)
  have after : Shows (closingStatements e tag sync place) [] := Shows.quiet (closing_quiet quiet)
  exact (before.append h).ended after

theorem text_shows (items : List Fragment) : Shows (textStatements path place items) [] := by
  refine Shows.quiet fun statement mem => ?_
  unfold textStatements at mem
  dsimp only at mem
  split at mem
  · cases List.mem_singleton.1 mem
    exact following_quiet _ _
  · split at mem
    · simp only [List.mem_cons, List.not_mem_nil, or_false] at mem
      rcases mem with rfl | rfl | rfl <;> exact fun _ _ => rfl
    · cases List.mem_singleton.1 mem
      exact fun _ _ => rfl

theorem gather_shows {count} (h : Shows s x) : Shows (gatherStatements place path count s) x := by
  unfold gatherStatements
  split
  · have before : Shows [.act (.createFragment ⟨.fragment, path⟩)] [] := fun _ => rfl
    have after : Shows [.act (.append place.real ⟨.fragment, path⟩)] [] := fun _ => rfl
    exact (before.append h).ended after
  · exact h

theorem region_shows {reactive block} (single : isSingle s = true)
    (flag : reactive = block.expressions.any (·.reactive))
    (h : ∀ regions subject, constructs regions subject s =
      ⟨block.kind, regions, block.expressions.map (·.code)⟩ :: x.map generated) :
    Shows (regionStatements reactive place s) (block :: x) := by
  intro subject
  rw [List.map_cons, generated, ← flag]
  cases reactive with
  | false => exact h 0 subject
  | true =>
    have inside : constructs 0 subject (regionStatements true place s) = constructs 1 [] s := by
      simp [regionStatements, constructs, Stmt.constructs, single]
    rw [inside]
    exact h 1 []

end

section

variable {slots : SlotTable} {place : Place} {path : Path} {i : Nat}

theorem switchLabel_expressions (value : Option Expr) :
    (switchLabel value).expressions = (value.toList.map Expr.operand).map (·.code) := by
  cases value <;> rfl

theorem LowersElseIfs.expressions {elseIfs branches} (h : LowersElseIfs slots place path i elseIfs branches) :
    branches.map Branch.expression = (elseIfs.map fun b => b.condition.operand).map (·.code) := by
  induction elseIfs generalizing i branches with
  | nil =>
    cases h
    rfl
  | cons branch elseIfs ih =>
    cases h with
    | cons head tail => simp [Branch.expression, ElseIf.condition, Expr.operand, ih tail]

theorem LowersMatchCases.expressions {cases clauses} (h : LowersMatchCases slots place path i cases clauses) :
    (clauses.flatMap fun c => c.label.expressions) =
      (cases.flatMap fun c => c.patterns.map Code.operand).map (·.code) := by
  induction cases generalizing i clauses with
  | nil =>
    cases h
    rfl
  | cons c cases ih =>
    cases h with
    | @skip _ _ _ patterns _ _ _ _ unlabelled tail =>
      have empty : patterns = [] := by simpa [matchLabel?] using unlabelled
      rw [List.flatMap_cons, empty, ih tail]
      rfl
    | @cons _ _ _ patterns _ _ _ _ _ _ labelled head tail =>
      have own : patterns.map Code.text = (patterns.map Code.operand).map (·.code) := by rw [List.map_map]; rfl
      rw [List.flatMap_cons, List.flatMap_cons, List.map_append, ih tail]
      exact congrArg (· ++ _) ((matchLabel?_expressions labelled).trans own)

theorem LowersSwitchCases.expressions {hasDefault cases clauses}
    (h : LowersSwitchCases slots place hasDefault path i cases clauses) :
    (clauses.flatMap fun c => c.label.expressions) =
      (cases.flatMap fun c => c.value.toList.map Expr.operand).map (·.code) := by
  induction cases generalizing i clauses with
  | nil =>
    cases h
    rfl
  | cons c cases ih =>
    cases h with
    | cons head tail =>
      rw [List.flatMap_cons, List.flatMap_cons, List.map_append, ih tail]
      exact congrArg (· ++ _) (switchLabel_expressions _)

theorem clauseConstructs_append (a b : List Clause) :
    clauseConstructs (a ++ b) = clauseConstructs a ++ clauseConstructs b := by
  induction a with
  | nil => rfl
  | cons c a ih =>
    cases c with
    | mk label body => simp [clauseConstructs, ih]

theorem lastClause_label (m : Temp) (last : Option (List Stmt)) : (lastClause m last).label.expressions = [] := by
  cases last <;> rfl

theorem lastClause_constructs (m : Temp) (last : Option (List Stmt)) :
    clauseConstructs [lastClause m last] = otherwiseConstructs last := by
  cases last with
  | none => rfl
  | some body =>
    simp [lastClause, clauseConstructs, otherwiseConstructs, constructs_append, constructs, Stmt.constructs]

theorem ending_constructs (m : Temp) (hasDefault : Bool) :
    clauseConstructs (if hasDefault then [] else [exhaustiveClause m]) = [] ∧
      (if hasDefault then [] else [exhaustiveClause m]).flatMap (fun c => c.label.expressions) = [] := by
  cases hasDefault <;> exact ⟨rfl, rfl⟩

theorem caseEnd_shows {falls hasDefault others} : Shows (caseEnd falls hasDefault others) [] := by
  unfold caseEnd
  split <;> exact fun _ => rfl

theorem conditional_flag (condition : Expr) (elseIfs : List ElseIf) : conditionalReactive condition elseIfs =
    (condition.operand :: elseIfs.map fun b => b.condition.operand).any (·.reactive) := by
  simp [conditionalReactive, Expr.operand, Function.comp_def]

theorem choice_flag (value : Expr) (cases : List MatchCase) :
    value.reactive = (value.operand :: cases.flatMap fun c => c.patterns.map Code.operand).any (·.reactive) := by
  simp [Expr.operand, Code.operand]

theorem switch_flag (value : Expr) (cases : List SwitchCase) : switchReactive value cases =
    (value.operand :: cases.flatMap fun c => c.value.toList.map Expr.operand).any (·.reactive) := by
  have one (c : SwitchCase) :
      ((c.value.map (·.reactive)).getD false) = (c.value.toList.map Expr.operand).any (·.reactive) := by
    cases c.value <;> simp [Expr.operand]
  simp [switchReactive, Expr.operand, one]

theorem switch_constructs (regions : Nat) (subject : List String) (m : Temp) (value : Code) (clauses : List Clause) :
    constructs regions subject (switchStatements m value clauses) =
      ⟨.switch, regions, value.text :: clauses.flatMap fun c => c.label.expressions⟩ :: clauseConstructs clauses := by
  simp [switchStatements, constructs, Stmt.constructs, Stmt.subject]

mutual

theorem Lowers.shows {place path e s} (h : Lowers slots place path e s) : Shows s (e.block?.toList ++ e.inside) := by
  match h with
  | .tag content => exact element_shows nofun content.shows
  | .synced content => exact element_shows (sync_quiet _ _ _) content.shows
  | .text => exact text_shows _
  | .component content =>
    intro subject
    simpa [constructs, Stmt.constructs, Entity.block?, Entity.inside] using content.shows
  | .conditional put content others final =>
    refine region_shows rfl (conditional_flag _ _) fun regions subject => ?_
    simp [constructs, Stmt.constructs, content.shows [], others.shows, final.shows, others.expressions, Expr.operand,
      Entity.inside]
  | .each put content =>
    refine region_shows rfl (by simp [Expr.operand]) fun regions subject => ?_
    simp [constructs, Stmt.constructs, content.shows [], Expr.operand, Entity.inside]
  | .choice put content final =>
    refine region_shows rfl (choice_flag _ _) fun regions subject => ?_
    rw [switch_constructs, clauseConstructs_append, lastClause_constructs, content.shows, final.shows]
    simp [content.expressions, lastClause_label, Expr.operand, Entity.inside]
  | .switch put sole content =>
    refine region_shows rfl (switch_flag _ _) fun regions subject => ?_
    have ending := ending_constructs ⟨.subject, path⟩
    rw [switch_constructs, clauseConstructs_append, List.flatMap_append, (ending _).1, (ending _).2, content.shows]
    simp [content.expressions, Expr.operand, Entity.inside]
  | .requiredSlot _ _ | .optionalSlot _ _ | .templateUse => exact fun _ => rfl
  | .fallbackSlot _ _ content =>
    intro subject
    simpa [constructs, Stmt.constructs, Entity.block?, Entity.inside, optionalBlocks] using content.shows []
  | .template => exact Shows.nil

theorem LowersList.shows {place path es s} (h : LowersList slots place path es s) : Shows s (blocksOf es) := by
  match h with
  | .gathered put content => exact gather_shows content.shows

theorem LowersFrom.shows {place path i es s} (h : LowersFrom slots place path i es s) : Shows s (blocksOf es) := by
  match h with
  | .nil => exact Shows.nil
  | .cons head tail => exact head.shows.append tail.shows

theorem LowersOptional.shows {place path body s} (h : LowersOptional slots place path body s) :
    otherwiseConstructs s = (optionalBlocks body).map generated := by
  match h with
  | .none => rfl
  | .some content => exact content.shows []

theorem LowersElseIfs.shows {place path i elseIfs branches} (h : LowersElseIfs slots place path i elseIfs branches) :
    branchConstructs branches = (elseIfBlocks elseIfs).map generated := by
  match h with
  | .nil => rfl
  | .cons head tail =>
    rw [branchConstructs, elseIfBlocks, List.map_append, head.shows, tail.shows]

theorem LowersMatchCases.shows {place path i cases clauses} (h : LowersMatchCases slots place path i cases clauses) :
    clauseConstructs clauses = (matchBlocks cases).map generated := by
  match h with
  | .nil => rfl
  | @LowersMatchCases.skip _ _ _ _ patterns _ _ _ _ unlabelled tail =>
    have empty : patterns = [] := by simpa [matchLabel?] using unlabelled
    simpa [matchBlocks, empty] using tail.shows
  | @LowersMatchCases.cons _ _ _ _ patterns _ _ _ _ _ _ labelled head tail =>
    have some : patterns ≠ [] := by
      rintro rfl
      cases labelled
    have ending : Shows [.act .break] [] := fun _ => rfl
    simp [clauseConstructs, matchBlocks, some, head.shows.ended ending [], tail.shows]

theorem LowersSwitchCases.shows {place path i hasDefault cases clauses}
    (h : LowersSwitchCases slots place hasDefault path i cases clauses) :
    clauseConstructs clauses = (switchBlocks cases).map generated := by
  match h with
  | .nil => rfl
  | .cons head tail =>
    rw [clauseConstructs, switchBlocks, List.map_append, head.shows.ended caseEnd_shows, tail.shows]

theorem LowersInsertions.shows {path i insertions fillings} (h : LowersInsertions slots path i insertions fillings) :
    fillingConstructs fillings = (insertionBlocks insertions).map generated := by
  match h with
  | .nil => rfl
  | .cons head tail =>
    rw [fillingConstructs, insertionBlocks, Insertion.blocks, List.map_append, head.shows, tail.shows]

end

theorem LowersTemplates.shows {i es s} (h : LowersTemplates slots i es s) :
    Shows s (es.flatMap Entity.templateBlocks) := by
  induction h with
  | nil => exact Shows.nil
  | @template _ name params _ _ _ statements _ head tail ih =>
    have body : Shows [.template name params statements] _ := fun _ => by
      simpa [constructs, Stmt.constructs] using head.shows []
    exact body.append ih
  | @other _ e _ _ shown tail ih =>
    have none : e.templateBlocks = [] := by cases e <;> first | rfl | cases shown
    simpa [none] using ih

theorem ofEntities_shows {es s} (h : ofEntities slots es = .ok s) :
    Shows s (es.flatMap Entity.templateBlocks ++ blocksOf es) := by
  obtain ⟨templates, body, hoisted, shown, rfl⟩ := ofEntities_lowers h
  exact hoisted.shows.append shown.shows

end

/-- What a block asks for by its marks: a region of its own if there is one on any of its expressions, and code without
them. -/
def asked (b : Block (List Char)) : Construct :=
  ⟨b.kind, if b.expressions.any isMarked then 1 else 0, b.expressions.map fun text => String.ofList (unmarked text)⟩

theorem generated_ofText : generated ∘ Block.map .ofText = asked := by
  funext b
  simp [generated, asked, Block.map, Operand.ofText, Function.comp_def]

/-- The program of an accepted template has the blocks of the template, in order. Each of them stands in one region of
its own if one of its expressions is written with a `:` in front, and in none otherwise. Its code has the expressions
without the `:`. -/
theorem marks_become_regions {source : String} {base : Nat} {items : List Outline.Item} {slots : Option SlotTable}
    {region : Span} {log log' : Log} {es : List Entity} (read : Outline.parse source base = .ok items)
    (accepted : check items slots region log = (some es, log')) (plain : Outline.PlainPatterns items) :
    ∃ statements, ofEntities (slots.getD []) es = .ok statements ∧
      constructsOf statements = (Outline.blocks items).map asked := by
  obtain ⟨statements, lowered⟩ := ofEntities_succeeds (check_sound accepted)
  refine ⟨statements, lowered, ?_⟩
  rw [constructsOf, ofEntities_shows lowered, ← check_blocks read accepted plain, List.map_map, generated_ofText]

/-- Every kind of block, with marks on conditions, a collection and a case. -/
theorem marks_become_regions_nested :
    let source := "@if(a)\n    p\n@elseif(:b)\n    @each(x of xs)\n        @switch(x)\n" ++
      "        @case( : 1 )\n            p\n@match(:a)\n@when(b, c)\n    @each(x of : xs)\n        p\n"
    let constructs := [⟨.conditional, 1, ["a", "b"]⟩, ⟨.loop, 0, ["xs"]⟩, ⟨.switch, 1, ["x", "1"]⟩,
      ⟨.switch, 1, ["a", "b", "c"]⟩, ⟨.loop, 1, ["xs"]⟩]
    ∃ items es log statements, Outline.parse source 0 = .ok items ∧ check items none ⟨0, 0⟩ [] = (some es, log) ∧
      ofEntities [] es = .ok statements ∧ constructsOf statements = constructs := by
  intro source constructs
  have computed : ((Outline.parse source 0).toOption.bind fun items => (check items none ⟨0, 0⟩ []).1.map fun _ =>
      (decide (Outline.PlainPatterns items), (Outline.blocks items).map asked)) = some (true, constructs) := by
    decide +kernel
  obtain ⟨items, es, log, read, accepted, shape⟩ := exists_accepted computed
  obtain ⟨plain, asks⟩ := Prod.mk.inj shape
  obtain ⟨statements, lowered, same⟩ := marks_become_regions read accepted (of_decide_eq_true plain)
  exact ⟨items, es, log, statements, read, accepted, lowered, same.trans asks⟩

/-- A mark on a pattern of a match is taken for code, and asks for no region. -/
theorem marked_pattern_shown :
    let source := "@match(a)\n@when(:x)\n    p\n"
    let blocks := [⟨.switch, ["a".toList, ":x".toList]⟩]
    let constructs := [⟨.switch, 0, ["a", ":x"]⟩]
    ((Outline.parse source 0).toOption.map Outline.blocks) = some blocks ∧
      ((Outline.parse source 0).toOption.bind fun items => (check items none ⟨0, 0⟩ []).1.bind fun es =>
        (ofEntities [] es).toOption.map constructsOf) = some constructs ∧
      ¬ constructs.Perm (blocks.map asked) := by
  decide +kernel

end ComponentCompiler.Program
