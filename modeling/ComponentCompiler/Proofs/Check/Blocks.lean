import ComponentCompiler.Proofs.Check.Conservation

/-!
# Blocks

The blocks of an accepted outline, with the expressions on their lines, are those of its entities, in the same order.
-/

namespace ComponentCompiler.Template

open Text

inductive BlockKind where
  | conditional
  | loop
  | switch
  deriving DecidableEq

/-- A block with the expressions on its lines, in order. -/
structure Block (α : Type) where
  kind : BlockKind
  expressions : List α
  deriving DecidableEq

namespace Block

variable {α β : Type}

def map (f : α → β) (b : Block α) : Block β := ⟨b.kind, b.expressions.map f⟩

def extend (b : Block α) (more : List α) : Block α := ⟨b.kind, b.expressions ++ more⟩

end Block

/-- The blocks of siblings: those that are shown ahead of the others, and those of each other line together with the
lines that go on with it, the last one first. -/
structure Tally (α : Type) where
  ahead : List (Block α) := []
  groups : List (List (Block α)) := []

namespace Tally

variable {α β : Type}

def blocks (t : Tally α) : List (Block α) := t.ahead ++ t.groups.reverse.flatten

def before (t : Tally α) (inner : List (Block α)) : Tally α := { t with ahead := t.ahead ++ inner }

def start (t : Tally α) (own : Option (Block α)) (inner : List (Block α)) : Tally α :=
  { t with groups := (own.toList ++ inner) :: t.groups }

/-- A line that goes on with a block adds its expressions to it. -/
def goOn (t : Tally α) (more : List α) (inner : List (Block α)) : Tally α :=
  match t.groups with
  | (own :: inside) :: others => { t with groups := (own.extend more :: (inside ++ inner)) :: others }
  | _ => t

def map (f : α → β) (t : Tally α) : Tally β := ⟨t.ahead.map (Block.map f), t.groups.map (List.map (Block.map f))⟩

theorem map_blocks (f : α → β) (t : Tally α) : (t.map f).blocks = t.blocks.map (Block.map f) := by
  simp [blocks, map, List.map_flatten, List.map_reverse]

theorem map_before (f : α → β) (t : Tally α) (inner : List (Block α)) :
    (t.before inner).map f = (t.map f).before (inner.map (Block.map f)) := by
  simp [before, map]

theorem map_start (f : α → β) (t : Tally α) (own : Option (Block α)) (inner : List (Block α)) :
    (t.start own inner).map f = (t.map f).start (own.map (Block.map f)) (inner.map (Block.map f)) := by
  cases own <;> simp [start, map]

theorem map_goOn (f : α → β) (t : Tally α) (more : List α) (inner : List (Block α)) :
    (t.goOn more inner).map f = (t.map f).goOn (more.map f) (inner.map (Block.map f)) := by
  obtain ⟨ahead, groups⟩ := t
  rcases groups with _ | ⟨_ | ⟨own, inside⟩, others⟩
  · rfl
  · rfl
  · simp [goOn, map, Block.map, Block.extend]

end Tally

/-- Whether an expression is written with a `:` in front. -/
def isMarked (text : List Char) : Bool := (trim text).head? = some ':'

def unmarked (text : List Char) : List Char :=
  match trim text with
  | ':' :: rest => trim rest
  | text => text

structure Operand where
  reactive : Bool
  code : String
  deriving DecidableEq

def Operand.ofText (text : List Char) : Operand := ⟨isMarked text, String.ofList (unmarked text)⟩

def Expr.operand (e : Expr) : Operand := ⟨e.reactive, e.code.text⟩

def Code.operand (c : Code) : Operand := ⟨false, c.text⟩

theorem expr_operand (text : List Char) (span : Span) : (Argument.expr text span).operand = .ofText text := by
  unfold Argument.expr Operand.ofText isMarked unmarked
  split
  · rename_i rest marked
    simp [marked, Expr.operand, Code.ofList]
  · rename_i other
    have bare : (trim text).head? ≠ some ':' := by
      intro first
      obtain ⟨rest, marked⟩ := List.head?_eq_some_iff.1 first
      exact other rest marked
    simp only [Expr.operand, Code.ofList, trim_trim, bare, decide_false]

theorem code_operand {text} (span : Span) (bare : isMarked text = false) :
    (Code.ofList text span).operand = .ofText text := by
  unfold Operand.ofText unmarked
  rw [bare]
  split
  · rename_i rest marked
    simp [isMarked, marked] at bare
  · rfl

namespace Outline

def Directive.kind? (d : Directive) : Option BlockKind :=
  match d.name with
  | "if" => some .conditional
  | "each" => some .loop
  | "match" | "switch" => some .switch
  | _ => none

def Directive.continues (d : Directive) : Bool := (Continuation.ofName? d.name).isSome

def Directive.expressions (d : Directive) : List (List Char) :=
  match d.name with
  | "if" | "elseif" | "match" | "switch" | "case" | "fallcase" => d.argument.toList.map fun a => a.text.toList
  | "when" => d.argument.toList.flatMap fun a =>
    ((Argument.split a.text.toList ',').filter (!·.isBlank)).map (·.text)
  | "each" => d.argument.toList.flatMap fun a => (Argument.splitAtOf? {} ' ' a.text.toList).toList.map (·.2)
  | _ => []

def Directive.isAhead (d : Directive) : Bool := d.name = "template" || d.name = "insert"

/-- What a line adds, with the blocks below it. -/
def Item.adds (t : Tally (List Char)) (inner : List (Block (List Char))) : Item → Tally (List Char)
  | .directive d _ _ =>
    if d.continues then t.goOn d.expressions inner
    else if d.isAhead then t.before inner
    else t.start (d.kind?.map (⟨·, d.expressions⟩)) inner
  | .tag .. | .component .. => t.start none inner
  | .text .. => t

mutual

def Item.inner : Item → List (Block (List Char))
  | .tag _ children _ | .component _ children _ | .directive _ children _ => (tallied {} children).blocks
  | .text _ _ => []

def tallied (t : Tally (List Char)) : List Item → Tally (List Char)
  | [] => t
  | i :: items => tallied (i.adds t i.inner) items

end

/-- The blocks on the lines, templates and insertions before their siblings, and each block before those below it. -/
def blocks (items : List Item) : List (Block (List Char)) := (tallied {} items).blocks

mutual

def Item.directives : Item → List Directive
  | .tag _ children _ | .component _ children _ => directives children
  | .directive d children _ => d :: directives children
  | .text _ _ => []

def directives : List Item → List Directive
  | [] => []
  | i :: items => i.directives ++ directives items

end

/-- No pattern of a match is written with a `:` in front. -/
def PlainPatterns (items : List Item) : Prop :=
  ∀ d ∈ directives items, d.name = "when" → ∀ pattern ∈ d.expressions, isMarked pattern = false

instance (items : List Item) : Decidable (PlainPatterns items) :=
  inferInstanceAs (Decidable (∀ d ∈ directives items, _))

end Outline

def MatchCase.patterns : MatchCase → List Code
  | .mk patterns _ _ => patterns

def Entity.block? : Entity → Option (Block Operand)
  | .conditional condition _ elseIfs _ _ =>
    some ⟨.conditional, condition.operand :: elseIfs.map fun branch => branch.condition.operand⟩
  | .each loop _ _ => some ⟨.loop, [loop.collection.operand]⟩
  | .choice value cases _ _ => some ⟨.switch, value.operand :: cases.flatMap fun c => c.patterns.map Code.operand⟩
  | .switch value cases _ => some ⟨.switch, value.operand :: cases.flatMap fun c => c.value.toList.map Expr.operand⟩
  | _ => none

mutual

/-- The blocks that are shown where the entity stands, without itself. -/
def Entity.inside : Entity → List (Block Operand)
  | .tag _ body | .synced _ _ _ body | .each _ body _ => blocksOf body
  | .component _ insertions => insertionBlocks insertions
  | .conditional _ body elseIfs otherwise _ => blocksOf body ++ elseIfBlocks elseIfs ++ optionalBlocks otherwise
  | .choice _ cases default _ => matchBlocks cases ++ optionalBlocks default
  | .switch _ cases _ => switchBlocks cases
  | .slot _ fallback _ => optionalBlocks fallback
  | .text .. | .insertion .. | .template .. | .templateUse .. => []

def blocksOf : List Entity → List (Block Operand)
  | [] => []
  | e :: es => e.block?.toList ++ e.inside ++ blocksOf es

def elseIfBlocks : List ElseIf → List (Block Operand)
  | [] => []
  | .mk _ body :: rest => blocksOf body ++ elseIfBlocks rest

/-- A case without patterns is not shown. -/
def matchBlocks : List MatchCase → List (Block Operand)
  | [] => []
  | .mk patterns body _ :: rest => (if patterns.isEmpty then [] else blocksOf body) ++ matchBlocks rest

def switchBlocks : List SwitchCase → List (Block Operand)
  | [] => []
  | .mk _ body _ _ :: rest => blocksOf body ++ switchBlocks rest

def Insertion.blocks : Insertion → List (Block Operand)
  | .mk _ body _ => blocksOf body

def insertionBlocks : List Insertion → List (Block Operand)
  | [] => []
  | insertion :: rest => insertion.blocks ++ insertionBlocks rest

def optionalBlocks : Option (List Entity) → List (Block Operand)
  | none => []
  | some body => blocksOf body

end

/-- Where alone the entity can stand. -/
def Entity.scope? : Entity → Option Scope
  | .template .. => some .root
  | .insertion .. => some .component
  | _ => none

/-- The blocks that are shown ahead of the siblings of the entity. -/
def Entity.ahead : Entity → List (Block Operand)
  | .template _ _ body _ => blocksOf body
  | .insertion i => i.blocks
  | _ => []

def Entity.templateBlocks : Entity → List (Block Operand)
  | .template _ _ body _ => blocksOf body
  | _ => []

def Entity.adds (t : Tally Operand) : Entity → Tally Operand
  | .text .. => t
  | .template _ _ body _ => t.before (blocksOf body)
  | .insertion i => t.before i.blocks
  | e => t.start e.block? e.inside

def tally (es : List Entity) : Tally Operand := es.foldl Entity.adds {}

def Keyword.kind? : Keyword → Option BlockKind
  | .conditional _ => some .conditional
  | .each _ => some .loop
  | .choice _ | .switch _ => some .switch
  | _ => none

def Keyword.continues : Keyword → Bool
  | .elseIf _ | .otherwise | .when _ | .case _ _ | .default _ => true
  | _ => false

def Keyword.operands : Keyword → List Operand
  | .conditional e | .elseIf e | .choice e | .switch e | .case _ e => [e.operand]
  | .when patterns => patterns.map Code.operand
  | .each loop => [loop.collection.operand]
  | _ => []

def Keyword.isAhead : Keyword → Bool
  | .insertion _ | .template _ _ => true
  | _ => false

def Keyword.adds (keyword : Keyword) (t : Tally Operand) (inner : List (Block Operand)) : Tally Operand :=
  if keyword.continues then t.goOn keyword.operands inner
  else if keyword.isAhead then t.before inner
  else t.start (keyword.kind?.map (⟨·, keyword.operands⟩)) inner

section

variable {d : Outline.Directive} {keyword : Keyword}

theorem Outline.Directive.expr?_operand {e} (read : d.expr? = some e) :
    (d.argument.toList.map fun a => a.text.toList).map Operand.ofText = [e.operand] := by
  obtain ⟨a, kept, rfl⟩ := Option.map_eq_some_iff.1 read
  obtain ⟨given, -⟩ := Option.filter_eq_some_iff.1 kept
  rw [given, expr_operand]
  rfl

theorem Outline.Directive.patterns?_operands {patterns} (read : d.patterns? = some patterns)
    (bare : ∀ pattern ∈ d.argument.toList.flatMap fun a =>
      ((Argument.split a.text.toList ',').filter (!·.isBlank)).map (·.text), isMarked pattern = false) :
    (d.argument.toList.flatMap fun a => ((Argument.split a.text.toList ',').filter (!·.isBlank)).map (·.text)).map
      Operand.ofText = patterns.map Code.operand := by
  obtain ⟨found, -⟩ := Option.filter_eq_some_iff.1 read
  obtain ⟨a, given, rfl⟩ := Option.map_eq_some_iff.1 found
  rw [given, Option.toList_some, List.flatMap_singleton] at bare ⊢
  simp only [Argument.codes, List.map_map]
  refine List.map_congr_left fun piece mem => ?_
  exact (code_operand a.span (bare piece.text (List.mem_map_of_mem mem))).symm

theorem Outline.Directive.loop?_operand {loop} (read : d.loop? = some loop) :
    (d.argument.toList.flatMap fun a => (Argument.splitAtOf? {} ' ' a.text.toList).toList.map (·.2)).map
      Operand.ofText =
      [loop.collection.operand] := by
  obtain ⟨a, given, found⟩ := Option.bind_eq_some_iff.1 read
  rw [given]
  unfold Argument.loop at found
  split at found
  · cases found
  · rename_i before collection split
    split at found
    · cases found
    · split at found
      · cases found
      · cases found
        simp [split, expr_operand]

theorem Outline.Directive.patterns_of_read {patterns} (read : d.read? = some (.when patterns)) :
    patterns.isEmpty = false := by
  simpa using (Option.filter_eq_some_iff.1 (supplies_of_read read).2).2

theorem Outline.Directive.operands_of_read (read : d.read? = some keyword)
    (plain : d.name = "when" → ∀ pattern ∈ d.expressions, isMarked pattern = false) :
    d.expressions.map Operand.ofText = keyword.operands := by
  obtain ⟨named, given⟩ := supplies_of_read read
  unfold Outline.Directive.expressions at plain ⊢
  rw [named] at plain ⊢
  cases keyword with
  | conditional | elseIf | choice | switch => exact expr?_operand given
  | case falls => cases falls <;> exact expr?_operand given
  | when => exact patterns?_operands given (plain rfl)
  | each => exact loop?_operand given
  | default falls => cases falls <;> rfl
  | _ => rfl

/-- A directive adds what the keyword does that it is read as. -/
theorem Outline.Directive.adds_of_read {children span t inner} (read : d.read? = some keyword)
    (plain : d.name = "when" → ∀ pattern ∈ d.expressions, isMarked pattern = false) :
    ((Outline.Item.directive d children span).adds t inner).map .ofText =
      keyword.adds (t.map .ofText) (inner.map (Block.map .ofText)) := by
  have operands := operands_of_read read plain
  have told : d.continues = keyword.continues ∧ d.isAhead = keyword.isAhead ∧ d.kind? = keyword.kind? := by
    unfold continues isAhead kind?
    rw [(supplies_of_read read).1]
    cases keyword with
    | case falls | default falls => cases falls <;> exact ⟨rfl, rfl, rfl⟩
    | _ => exact ⟨rfl, rfl, rfl⟩
  obtain ⟨continues, ahead, kind⟩ := told
  unfold Outline.Item.adds Keyword.adds
  dsimp only
  rw [continues, ahead, kind, ← operands]
  split
  · exact Tally.map_goOn _ _ _ _
  · split
    · exact Tally.map_before _ _ _
    · rw [Tally.map_start, Option.map_map]
      rfl

end

section

variable {es : List Entity} {e : Entity}

theorem tally_blocks (es : List Entity) : (tally es).blocks = es.flatMap Entity.ahead ++ blocksOf es := by
  have adds (t : Tally Operand) : (es.foldl Entity.adds t).ahead = t.ahead ++ es.flatMap Entity.ahead ∧
      (es.foldl Entity.adds t).groups.reverse.flatten = t.groups.reverse.flatten ++ blocksOf es := by
    induction es generalizing t with
    | nil => simp [blocksOf]
    | cons e es ih =>
      rw [List.foldl_cons, (ih _).1, (ih _).2]
      cases e <;> simp [Entity.adds, Tally.before, Tally.start, Entity.ahead, blocksOf, Entity.block?, Entity.inside]
  rw [Tally.blocks, tally, (adds _).1, (adds _).2]
  rfl

theorem elseIfBlocks_append (a b : List ElseIf) : elseIfBlocks (a ++ b) = elseIfBlocks a ++ elseIfBlocks b := by
  induction a with
  | nil => rfl
  | cons branch a ih =>
    cases branch with
    | mk condition body => simp [elseIfBlocks, ih]

theorem matchBlocks_append (a b : List MatchCase) : matchBlocks (a ++ b) = matchBlocks a ++ matchBlocks b := by
  induction a with
  | nil => rfl
  | cons c a ih =>
    cases c with
    | mk patterns body span => simp [matchBlocks, ih]

theorem switchBlocks_append (a b : List SwitchCase) : switchBlocks (a ++ b) = switchBlocks a ++ switchBlocks b := by
  induction a with
  | nil => rfl
  | cons c a ih =>
    cases c with
    | mk value body falls span => simp [switchBlocks, ih]

theorem insertionBlocks_append (a b : List Insertion) :
    insertionBlocks (a ++ b) = insertionBlocks a ++ insertionBlocks b := by
  induction a with
  | nil => rfl
  | cons i a ih => simp [insertionBlocks, ih]

theorem insertionBlocks_eq (below : ∀ e ∈ es, ∀ s, e.scope? = some s → .component = s) :
    insertionBlocks (es.filterMap Entity.insertion? ++ gathered (es.filter fun e => e.insertion?.isNone)) =
      es.flatMap Entity.ahead ++ blocksOf es := by
  have rest (others : List Entity) : insertionBlocks (gathered others) = blocksOf others := by
    cases others <;> simp [gathered, insertionBlocks, Insertion.blocks, blocksOf]
  rw [insertionBlocks_append, rest]
  refine congrArg₂ (· ++ ·) ?_ ?_
  all_goals
    induction es with
    | nil => rfl
    | cons e es ih =>
      obtain ⟨here, others⟩ := List.forall_mem_cons.1 below
      have later := ih others
      cases e with
      | template => cases here _ rfl
      | _ =>
        simp [Entity.insertion?, insertionBlocks, Entity.ahead, blocksOf, Entity.block?, Entity.inside] at later ⊢
        exact later

end

namespace Outline

variable {items : List Item} {i : Item}

theorem tallied_concat (t : Tally (List Char)) (items : List Item) (i : Item) :
    tallied t (items ++ [i]) = i.adds (tallied t items) i.inner := by
  induction items generalizing t with
  | nil => rfl
  | cons _ _ ih => exact ih _

theorem directives_append (items more : List Item) :
    directives (items ++ more) = directives items ++ directives more := by
  induction items with
  | nil => rfl
  | cons i items ih => simp [directives, ih]

theorem PlainPatterns.append {more} (h : PlainPatterns (items ++ more)) :
    PlainPatterns items ∧ PlainPatterns more := by
  unfold PlainPatterns at *
  simp only [directives_append, List.mem_append] at h
  exact ⟨fun d mem => h d (.inl mem), fun d mem => h d (.inr mem)⟩

theorem PlainPatterns.children (h : PlainPatterns [i]) : PlainPatterns i.children := by
  intro d mem
  refine h d ?_
  cases i <;> simp_all [directives, Item.directives, Item.children]

theorem PlainPatterns.adds {d children span keyword} (h : PlainPatterns [.directive d children span])
    (read : d.read? = some keyword) (t : Tally (List Char)) (inner : List (Block (List Char))) :
    ((Item.directive d children span).adds t inner).map .ofText =
      keyword.adds (t.map .ofText) (inner.map (Block.map .ofText)) :=
  Directive.adds_of_read read (h d (by simp [directives, Item.directives]))

theorem Item.inner_eq (i : Item) : i.inner = blocks i.children := by cases i <;> rfl

end Outline

/-- The blocks of entities are those of the lines they come from. -/
structure Tallied (scope : Scope) (items : List Outline.Item) (es : List Entity) : Prop where
  same : (Outline.tallied {} items).map .ofText = tally es
  apart : ∀ e ∈ es, ∀ s, e.scope? = some s → scope = s

namespace Tallied

variable {scope : Scope} {items : List Outline.Item} {es : List Entity} {e next : Entity} {i : Outline.Item}

theorem blocks (h : Tallied scope items es) :
    (Outline.blocks items).map (Block.map .ofText) = es.flatMap Entity.ahead ++ blocksOf es := by
  rw [Outline.blocks, ← Tally.map_blocks, h.same, tally_blocks]

theorem push (h : Tallied scope items es)
    (line : ∀ t, (i.adds t i.inner).map .ofText = Entity.adds (t.map .ofText) e)
    (own : ∀ s, e.scope? = some s → scope = s) : Tallied scope (items ++ [i]) (es ++ [e]) := by
  refine ⟨?_, List.forall_mem_append.2 ⟨h.apart, List.forall_mem_singleton.2 own⟩⟩
  rw [Outline.tallied_concat, line, h.same]
  simp [tally]

theorem extend {operands more} (h : Tallied scope items (es ++ [e]))
    (line : ∀ t, (i.adds t i.inner).map .ofText = (t.map .ofText).goOn operands more)
    (goes : ∀ t, (e.adds t).goOn operands more = next.adds t) (own : next.scope? = none) :
    Tallied scope (items ++ [i]) (es ++ [next]) := by
  obtain ⟨before, -⟩ := List.forall_mem_append.1 h.apart
  refine ⟨?_, List.forall_mem_append.2 ⟨before, by simp [own]⟩⟩
  rw [Outline.tallied_concat, line, h.same]
  simpa [tally] using goes _

theorem text_iff {line span} : Tallied scope items (es ++ [.text line span]) ↔ Tallied scope items es := by
  have same : tally (es ++ [.text line span]) = tally es := by simp [tally, Entity.adds]
  constructor
  · rintro ⟨h, apart⟩
    exact ⟨h.trans same, (List.forall_mem_append.1 apart).1⟩
  · rintro ⟨h, apart⟩
    exact ⟨h.trans same.symm, List.forall_mem_append.2 ⟨apart, by simp [Entity.scope?]⟩⟩

theorem text {s : Siblings} {line span} (h : Tallied scope items s.done.reverse) :
    Tallied scope (items ++ [.text line span]) (s.pushText line span).done.reverse := by
  have still : Tallied scope (items ++ [.text line span]) s.done.reverse := by
    refine ⟨?_, h.apart⟩
    rw [Outline.tallied_concat]
    exact h.same
  unfold Siblings.pushText
  split
  · exact still
  · split
    · rename_i before start done same
      rw [same, List.reverse_cons, text_iff] at still
      rwa [List.reverse_cons, text_iff]
    · rwa [List.reverse_cons, text_iff]

end Tallied

namespace Check

def Reckoned (scope : Scope) (items : List Outline.Item) (_ : Progress) (es : List Entity) (_ : Progress) : Prop :=
  (∀ i ∈ items, i.BlocksFit) → Outline.PlainPatterns items → Tallied scope items es

section

variable {slots : Option SlotTable} {scope : Scope} {p q : Progress} {es : List Entity} {items : List Outline.Item}

theorem inner_reckoned {i} (fit : i.BlocksFit) (plain : Outline.PlainPatterns [i])
    (h : Reckoned scope i.children p es q) :
    i.inner.map (Block.map .ofText) = es.flatMap Entity.ahead ++ blocksOf es := by
  rw [i.inner_eq]
  exact (h fit.children plain.children).blocks

theorem inner_nested {i} (fit : i.BlocksFit) (plain : Outline.PlainPatterns [i])
    (h : Reckoned .nested i.children p es q) : i.inner.map (Block.map .ofText) = blocksOf es := by
  have none : es.flatMap Entity.ahead = [] := by
    refine List.flatMap_eq_nil_iff.2 fun e mem => ?_
    have apart := (h fit.children plain.children).apart e mem
    cases e with
    | template | insertion => cases apart _ rfl
    | _ => rfl
  rw [inner_reckoned fit plain h, none, List.nil_append]

attribute [local simp] Keyword.adds Keyword.continues Keyword.isAhead Keyword.kind? Keyword.operands
  Entity.adds Entity.block?
  Entity.inside optionalBlocks Tally.goOn Tally.start Block.extend in
theorem adds_tallied {i es'} (added : Adds slots scope Reckoned i es p es' q) (fit : i.BlocksFit)
    (plain : Outline.PlainPatterns [i]) (sofar : Tallied scope items es) : Tallied scope (items ++ [i]) es' := by
  cases added with
  | text => exact sofar.text
  | tag read content synced =>
    have below := inner_nested fit plain content
    cases synced with
    | plain | synced => exact sofar.push (fun t => (Tally.map_start _ t none _).trans (by rw [below]; rfl)) nofun
  | component read content =>
    have inner := inner_reckoned fit plain content
    rw [← insertionBlocks_eq (content fit.children plain.children).apart] at inner
    exact sofar.push (fun t => (Tally.map_start _ t none _).trans (by rw [inner]; rfl)) nofun
  | conditional read content =>
    refine sofar.push (fun t => (plain.adds read t _).trans ?_) nofun
    simp [inner_nested fit plain content, elseIfBlocks]
  | elseIf read content =>
    refine sofar.extend (plain.adds read · _) (fun t => ?_) rfl
    simp [inner_nested fit plain content, elseIfBlocks_append, elseIfBlocks, ElseIf.condition]
  | when read content =>
    refine sofar.extend (plain.adds read · _) (fun t => ?_) rfl
    simp [inner_nested fit plain content, matchBlocks_append, matchBlocks, MatchCase.patterns,
      Outline.Directive.patterns_of_read read]
  | otherwise read content | choiceDefault read content =>
    refine sofar.extend (plain.adds read · _) (fun t => ?_) rfl
    simp [inner_nested fit plain content]
  | case read content | switchDefault read _ content =>
    refine sofar.extend (plain.adds read · _) (fun t => ?_) rfl
    simp [inner_nested fit plain content, switchBlocks_append, switchBlocks, SwitchCase.value]
  | each read content | fallbackSlot read _ _ _ content =>
    refine sofar.push (fun t => (plain.adds read t _).trans ?_) nofun
    simp [inner_nested fit plain content]
  | choice read alone | switch read alone | templateUse read alone =>
    have adds := plain.adds read
    cases fit.blockless alone
    exact sofar.push (adds · _) nofun
  | slot read => exact sofar.push (plain.adds read · _) nofun
  | insertion read place content | template read place _ content =>
    refine sofar.push (fun t => (plain.adds read t _).trans ?_) (by rintro _ ⟨⟩; exact place)
    simp [inner_nested fit plain content, Insertion.blocks]

theorem kept_reckoned (slots : Option SlotTable) : Kept slots Reckoned where
  start _ _ _ _ := ⟨rfl, List.forall_mem_nil _⟩
  step := by
    intro scope p before es q i es' r sofar added fit plain
    obtain ⟨earlier, last⟩ := List.forall_mem_append.1 fit
    obtain ⟨plainEarlier, plainLast⟩ := plain.append
    exact adds_tallied added (List.forall_mem_singleton.1 last) plainLast (sofar earlier plainEarlier)

end

end Check

theorem check_blocks {source base items slots region log log' es} (read : Outline.parse source base = .ok items)
    (accepted : check items slots region log = (some es, log')) (plain : Outline.PlainPatterns items) :
    (Outline.blocks items).map (Block.map .ofText) = es.flatMap Entity.templateBlocks ++ blocksOf es := by
  obtain ⟨_, reckoned, -⟩ := check_kept (Check.kept_reckoned slots) accepted
  have fit : ∀ i ∈ items, i.BlocksFit := fun i mem => (Outline.parse_wellFormed read i mem).blocksFit
  have tallied := reckoned fit plain
  rw [tallied.blocks]
  refine congrArg (· ++ blocksOf es) (List.flatMap_congr fun e mem => ?_)
  have apart := tallied.apart e mem
  cases e with
  | insertion => cases apart _ rfl
  | _ => rfl

end ComponentCompiler.Template
