import ComponentCompiler.Proofs.Dom.Faithful

/-!
# Programs that append every node at once
-/

namespace ComponentCompiler.Program

open Template

namespace Dom

def direct (node : Node) : Place := ⟨node, node, false⟩

mutual

def naive (node : Node) (path : Path) : Entity → List Stmt
  | .tag tag body =>
    let e : Temp := ⟨.element, path⟩
    elementStatements e tag [] (direct node) (naiveItems (.temp e) path 0 body)
  | .text items _ => [.act (.appendText node items)]
  | .conditional condition body elseIfs otherwise _ =>
    [.conditional condition.code (naiveItems node (path ++ [0]) 0 body) (naiveElseIfs node path 1 elseIfs)
      (naiveOptional node (path ++ [elseIfs.length + 1]) otherwise)]
  | .each loop body _ => [.loop loop (naiveItems node path 0 body)]
  | .choice value cases default _ =>
    let t : Temp := ⟨.subject, path⟩
    switchStatements t value.code
      (naiveMatchCases node path 0 cases ++ [lastClause t (naiveOptional node (path ++ [cases.length]) default)])
  | .switch value cases _ =>
    let t : Temp := ⟨.subject, path⟩
    let hasDefault := cases.any (·.isDefault)
    switchStatements t value.code (naiveSwitchCases node hasDefault path 0 cases ++ ending hasDefault t)
  | _ => []

def naiveItems (node : Node) (path : Path) (i : Nat) : List Entity → List Stmt
  | [] => []
  | e :: es => naive node (path ++ [i]) e ++ naiveItems node path (i + 1) es

def naiveOptional (node : Node) (path : Path) : Option (List Entity) → Option (List Stmt)
  | none => none
  | some body => some (naiveItems node path 0 body)

def naiveElseIfs (node : Node) (path : Path) (i : Nat) : List ElseIf → List Branch
  | [] => []
  | .mk condition body :: elseIfs =>
    .mk condition.code (naiveItems node (path ++ [i]) 0 body) :: naiveElseIfs node path (i + 1) elseIfs

def naiveMatchCases (node : Node) (path : Path) (i : Nat) : List MatchCase → List Clause
  | [] => []
  | .mk patterns body _ :: cases =>
    ((matchLabel? patterns).map fun label => .mk label (naiveItems node (path ++ [i]) 0 body ++ [.act .break])).toList
      ++ naiveMatchCases node path (i + 1) cases

def naiveSwitchCases (node : Node) (hasDefault : Bool) (path : Path) (i : Nat) : List SwitchCase → List Clause
  | [] => []
  | .mk value body falls _ :: cases =>
    .mk (switchLabel value) (naiveItems node (path ++ [i]) 0 body ++ caseEnd falls hasDefault cases)
      :: naiveSwitchCases node hasDefault path (i + 1) cases

end

variable {σ ν : Type} {I : Interpretation σ ν}

theorem Outside.branch {node path} (outside : Outside (OfEntity path) node) (i : Nat) :
    Outside (OfItems (path ++ [i])) node :=
  outside.mono fun _ inside => inside.list.entity.branch

theorem Realises.branch {place} {alone : Prop} {path i s} {r : σ → List Tree × σ}
    (h : Realises I (OfItems (path ++ [i])) place alone s r) : Realises I (OfEntity path) place alone s r :=
  h.mono (fun _ inside => inside.list.entity.branch) fun _ => id

mutual

theorem naive_realises (e : Entity) {node path} (outside : Outside (OfEntity path) node) :
    Realises I (OfEntity path) (direct node) False (naive node path e) (meaning I e) := by
  match e with
  | .tag tag body =>
    have inner := naiveItems_realises body (i := 0) (outside_own .element path)
    exact Realises.element (inner.at rfl nofun) (fun inside => inside.2 rfl) (List.prefix_refl _)
      (fun _ inside => inside.list.entity) outside False.elim
  | .text items _ => exact Realises.appendText items
  | .conditional condition body elseIfs otherwise _ =>
    exact Realises.conditional (naiveItems_realises body (outside.branch 0)).branch
      (naiveElseIfs_realises elseIfs outside)
      (naiveOptional_realises otherwise outside)
  | .each loop body _ =>
    have inner := naiveItems_realises body (i := 0) (outside.mono fun _ inside => inside.list.entity)
    exact Realises.loop (inner.mono (fun _ inside => inside.list.entity) fun _ => id) outside
  | .choice value cases default _ =>
    exact Realises.choice (naiveMatchCases_realises cases outside) (naiveOptional_realises default outside)
  | .switch value cases _ => exact Realises.switch (naiveSwitchCases_realises cases outside) nofun outside
  | .synced .. | .component .. | .slot .. | .insertion _ | .template .. | .templateUse .. => exact Realises.nil

theorem naiveItems_realises (es : List Entity) {node path i} (outside : Outside (OfItems path) node) :
    Realises I (OfItems path) (direct node) False (naiveItems node path i es) (meanings I es) := by
  match es with
  | [] => exact Realises.nil
  | e :: es =>
    have here : Outside (OfEntity (path ++ [i])) node := outside.mono fun _ => OfEntity.items
    have first := (naive_realises e here).mono (fun _ => OfEntity.items) fun _ => id
    exact Realises.append first (naiveItems_realises es outside) outside nofun

theorem naiveOptional_realises (body : Option (List Entity)) {node path i} (outside : Outside (OfEntity path) node) :
    Otherwise I (OfEntity path) (direct node) False (naiveOptional node (path ++ [i]) body) body := by
  match body with
  | none => exact .none
  | some body => exact .some (naiveItems_realises body (outside.branch i)).branch

theorem naiveElseIfs_realises (elseIfs : List ElseIf) {node path i} (outside : Outside (OfEntity path) node) :
    Branching I (OfEntity path) (direct node) False (naiveElseIfs node path i elseIfs) elseIfs := by
  match elseIfs with
  | [] => exact .nil
  | .mk condition body :: elseIfs =>
    exact .cons (naiveItems_realises body (outside.branch i)).branch (naiveElseIfs_realises elseIfs outside)

theorem naiveMatchCases_realises (cases : List MatchCase) {node path i} (outside : Outside (OfEntity path) node) :
    Matching I (OfEntity path) (direct node) False (naiveMatchCases node path i cases) cases := by
  match cases with
  | [] => exact .nil
  | .mk patterns body _ :: cases =>
    have rest := naiveMatchCases_realises cases (i := i + 1) outside
    have here := (naiveItems_realises body (i := 0) (outside.branch i)).branch
    rw [naiveMatchCases]
    cases labelled : matchLabel? patterns with
    | none => exact .skip labelled rest
    | some label => exact .cons labelled here rest

theorem naiveSwitchCases_realises (cases : List SwitchCase) {node hasDefault path i}
    (outside : Outside (OfEntity path) node) :
    Switching I (OfEntity path) (direct node) False hasDefault
      (naiveSwitchCases node hasDefault path i cases) cases := by
  match cases with
  | [] => exact .nil
  | .mk value body falls _ :: cases =>
    exact .cons (naiveItems_realises body (outside.branch i)).branch (naiveSwitchCases_realises cases outside)

end

end Dom

theorem LowersTemplates.eq_nil {slots i es s} (h : LowersTemplates slots i es s)
    (rendered : ∀ e ∈ es, isRendered e = true) : s = [] := by
  induction h with
  | nil => rfl
  | template => exact absurd (rendered _ List.mem_cons_self) nofun
  | other _ _ ih => exact ih fun e among => rendered e (List.mem_cons_of_mem _ among)

namespace Dom

variable {σ ν : Type} {I : Interpretation σ ν}

theorem ofEntities_realises {slots es s} (lowered : ofEntities slots es = .ok s)
    (plain : ∀ e ∈ es, Plain KeepsContent e) : Realises I (OfList []) .scope False s (meanings I es) := by
  obtain ⟨templates, body, first, rest, rfl⟩ := ofEntities_lowers lowered
  rw [first.eq_nil fun e among => (plain e among).isRendered, List.nil_append]
  exact (rest.realises plain nofun).mono (fun _ => id) nofun

/-- From `m` to `m'`, the parent got exactly `trees`, and no other node changed. -/
def Appended (m m' : Machine σ ν) (trees : List Tree) : Prop := Gains (fun _ => True) m m' m.parent trees

/-- A lowered program ends with the same trees below its parent, and in the same world, as the naive one. -/
theorem lowered_shows_naive (I : Interpretation σ ν) {slots : SlotTable} {es : List Entity} {s : List Stmt}
    (lowered : ofEntities slots es = .ok s) (plain : ∀ e ∈ es, Plain KeepsContent e) (m : Machine σ ν)
    (old : m.parent < m.heap.size) :
    ∃ a b, runList I s m = some (a, .next) ∧ runList I (naiveItems .parent [] 0 es) m = some (b, .next) ∧
      a.world = b.world ∧ (∃ trees, Appended m a trees) ∧ ∀ trees, Appended m a trees ↔ Appended m b trees := by
  have ready : Ready m .scope False m.parent := ⟨rfl, old, nofun⟩
  have ready' : Ready m (direct .parent) False m.parent := ⟨rfl, old, nofun⟩
  obtain ⟨a, ran, world, g⟩ := ofEntities_realises (I := I) lowered plain ready
  have outside : Outside (OfItems []) .parent := fun _ same => by cases same
  obtain ⟨b, ran', world', g'⟩ := naiveItems_realises (I := I) (i := 0) es outside ready'
  have shown : Appended m a (meanings I es m.world).1 := g.mono fun _ _ => trivial
  have shown' : Appended m b (meanings I es m.world).1 := g'.mono fun _ _ => trivial
  refine ⟨a, b, ran, ran', world.trans world'.symm, ⟨_, shown⟩, fun trees => ⟨fun h => ?_, fun h => ?_⟩⟩
  · rw [h.unique shown]
    exact shown'
  · rw [h.unique shown']
    exact shown

/-- Every condition holds, and every text of code is empty. -/
def yes : Interpretation Unit Unit where
  truth := fun _ w => (true, w)
  rounds := fun _ w => (1, w)
  enter := fun _ _ w => w
  value := fun _ w => ((), w)
  same := fun _ _ => true
  shown := fun _ _ => ""

def page : Machine Unit Unit where
  heap := ⟨1, fun _ => ⟨.fragment, []⟩⟩
  parent := 0
  realParent := 0
  temps := fun _ => none
  subjects := fun _ => none
  world := ()

theorem lowered_shows_naive_branches :
    let es : List Entity := [.tag { name := "p", span := ⟨0, 1⟩ }
      [.conditional ⟨⟨"x", true, ⟨2, 3⟩⟩, false⟩ [.text [.static "a"] ⟨4, 5⟩] []
        (some [.text [.static "b"] ⟨6, 7⟩, .tag { name := "i", span := ⟨8, 9⟩ } []]) ⟨2, 9⟩]]
    (∀ e ∈ es, Plain KeepsContent e) ∧ ∃ s, ofEntities [] es = .ok s ∧ ∃ a b, runList yes s page = some (a, .next) ∧
      runList yes (naiveItems .parent [] 0 es) page = some (b, .next) ∧ a.world = b.world ∧
      (∃ trees, Appended page a trees) ∧ ∀ trees, Appended page a trees ↔ Appended page b trees := by
  intro es
  have plain : ∀ e ∈ es, Plain KeepsContent e := by
    intro e among
    cases List.mem_singleton.1 among
    refine .tag nofun fun e among => ?_
    cases List.mem_singleton.1 among
    refine .conditional rfl (fun e among => ?_) nofun fun body among e inside => ?_
    · cases List.mem_singleton.1 among
      exact .text nofun List.mem_cons_self nofun
    · cases among
      simp only [List.mem_cons, List.not_mem_nil, or_false] at inside
      rcases inside with rfl | rfl
      · exact .text nofun List.mem_cons_self nofun
      · exact .tag nofun nofun
  obtain ⟨s, lowered⟩ : ∃ s, ofEntities [] es = .ok s := ⟨_, rfl⟩
  exact ⟨plain, s, lowered, lowered_shows_naive yes lowered plain page (Nat.lt_succ_self 0)⟩

/-- Text replaces what was bound as the content of its element, where the naive program keeps both. -/
theorem bound_content_replaced :
    let es : List Entity := [.tag { name := "p", bindings := [⟨"textContent", .static "a", ⟨0, 1⟩⟩], span := ⟨0, 1⟩ }
      [.text [.static "b"] ⟨2, 3⟩]]
    (∀ e ∈ es, Plain (fun _ _ => True) e) ∧ ∃ s a b, ofEntities [] es = .ok s ∧
      runList yes s page = some (a, .next) ∧ runList yes (naiveItems .parent [] 0 es) page = some (b, .next) ∧
      ∃ trees, Appended page b trees ∧ ¬ Appended page a trees := by
  intro es
  have ready : Ready page (direct .parent) False 0 := ⟨rfl, Nat.lt_succ_self 0, nofun⟩
  have outside : Outside (OfItems []) .parent := fun _ same => by cases same
  obtain ⟨b, ran, -, g⟩ := naiveItems_realises (I := yes) (i := 0) es outside ready
  refine ⟨?_, _, _, b, rfl, rfl, ran, _, g.mono fun _ _ => trivial, fun shown => ?_⟩
  · intro e among
    cases List.mem_singleton.1 among
    refine .tag trivial fun e among => ?_
    cases List.mem_singleton.1 among
    exact .text nofun List.mem_cons_self nofun
  · obtain ⟨kids, here, shown⟩ := shown.added
    cases (congrArg Cell.children here : [1] = kids)
    cases (shown : ShowsAll _ _ [1] [.element "p" [] [.text "a", .text (yes.text [.static "b"] ())]]) with
    | cons first _ =>
      cases first with
      | element _ here content =>
        cases (congrArg Cell.children here : [3] = _)
        cases content with
        | cons _ rest => cases rest

end Dom

end ComponentCompiler.Program
