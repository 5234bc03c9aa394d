import ComponentCompiler.Proofs.Dom.Growth
import ComponentCompiler.Proofs.Program.Lowering

/-!
# Statements that show a meaning

`Realises` says that statements, run at a place, append what a meaning asks for.
-/

namespace ComponentCompiler.Program.Dom

open Template

variable {σ ν : Type} {I : Interpretation σ ν}

/-- The node of `place` is `p`. Content that replaces all others, if `alone` says there is any, finds none. -/
structure Ready (m : Machine σ ν) (place : Place) (alone : Prop) (p : Nat) : Prop where
  node : m.node? place.node = some p
  old : p < m.heap.size
  empty : place.isReal = true → place.lone = true → alone → (m.heap.cell p).children = []

def Outside (W : Temp → Prop) (node : Node) : Prop := ∀ t, node = .temp t → ¬ W t

@[simp] theorem node?_world (m : Machine σ ν) (w : σ) (node : Node) :
    Machine.node? { m with world := w } node = m.node? node := by
  cases node <;> rfl

section

variable {W W' : Temp → Prop} {m m' : Machine σ ν} {place : Place} {alone alone' : Prop} {p : Nat} {trees : List Tree}

theorem Ready.world (r : Ready m place alone p) (w : σ) : Ready { m with world := w } place alone p :=
  ⟨(node?_world m w place.node).trans r.node, r.old, r.empty⟩

theorem Ready.mono (r : Ready m place alone p) (fewer : place.lone = true → alone' → alone) : Ready m place alone' p :=
  { r with empty := fun real lone one => r.empty real lone (fewer lone one) }

theorem Ready.gained (r : Ready m place alone p) (g : Gains W m m' p trees) (outside : Outside W place.node)
    (many : place.lone = true → ¬ alone') : Ready m' place alone' p where
  node := (g.node? outside).trans r.node
  old := Nat.lt_of_lt_of_le r.old g.grows
  empty := fun _ lone one => absurd one (many lone)

/-- A run that began at `m` went on to its end; it showed and did what `r` says. -/
def Adds (o : Option (Machine σ ν × Flow)) (m : Machine σ ν) (W : Temp → Prop) (p : Nat) (r : List Tree × σ) : Prop :=
  ∃ m', o = some (m', .next) ∧ m'.world = r.2 ∧ Gains W m m' p r.1

variable {o : Option (Machine σ ν × Flow)} {k : Machine σ ν → Option (Machine σ ν × Flow)} {r : List Tree × σ}
  {r' : σ → List Tree × σ}

theorem Adds.nothing (m : Machine σ ν) : Adds (some (m, .next)) m W p ([], m.world) :=
  ⟨m, rfl, rfl, Gains.nothing rfl rfl rfl rfl⟩

theorem Adds.mono (a : Adds o m W p r) (wider : ∀ t, W t → W' t) : Adds o m W' p r := by
  obtain ⟨m', ran, world, g⟩ := a
  exact ⟨m', ran, world, g.mono wider⟩

theorem Adds.caught (a : Adds o m W p r) : Adds (caught o) m W p r := by
  obtain ⟨m', rfl, world, g⟩ := a
  exact ⟨m', rfl, world, g⟩

theorem Adds.andThen (a : Adds o m W p r) (old : p < m.heap.size)
    (next : ∀ m', Gains W m m' p r.1 → m'.world = r.2 → Adds (k m') m' W p (r' r.2)) :
    Adds (andThen o k) m W p (followedBy r r') := by
  obtain ⟨m', rfl, world, g⟩ := a
  obtain ⟨m'', ran, world', g'⟩ := next m' g world
  exact ⟨m'', ran, world', g.trans g' old⟩

theorem Adds.since (a : Adds o m' W p r) (heap : m'.heap = m.heap) (parent : m'.parent = m.parent)
    (realParent : m'.realParent = m.realParent) (temps : m'.temps = m.temps) (old : p < m.heap.size) :
    Adds o m W p r := by
  obtain ⟨m'', ran, world, g⟩ := a
  exact ⟨m'', ran, world, (Gains.nothing heap parent realParent temps).trans g old⟩

theorem Adds.world {w} (a : Adds o { m with world  := w } W p r) (old : p < m.heap.size) : Adds o m W p r :=
  a.since rfl rfl rfl rfl old

end

theorem andThen_assoc (o : Option (Machine σ ν × Flow)) (k k' : Machine σ ν → Option (Machine σ ν × Flow)) :
    andThen (andThen o k) k' = andThen o fun m => andThen (k m) k' := by
  cases o with
  | none => rfl
  | some out =>
    obtain ⟨m, flow⟩ := out
    cases flow <;> rfl

theorem runList_append (s t : List Stmt) (m : Machine σ ν) :
    runList I (s ++ t) m = andThen (runList I s m) (runList I t) := by
  induction s generalizing m with
  | nil => rfl
  | cons a s ih =>
    rw [List.cons_append, runList, runList, andThen_assoc]
    congr
    funext m
    exact ih m

theorem runList_singleton (s : Stmt) (m : Machine σ ν) : runList I [s] m = runStmt I s m := by
  rw [runList]
  cases runStmt I s m with
  | none => rfl
  | some out =>
    obtain ⟨m, flow⟩ := out
    cases flow <;> rfl

theorem runStmt_act {a m m'} (ran : runAction I a m = some m') (going : a ≠ .break) :
    runStmt I (.act a) m = some (m', .next) := by
  rw [runStmt, ran]
  · rfl
  · exact going

theorem runList_act {a m m'} (ran : runAction I a m = some m') (going : a ≠ .break) (s : List Stmt) :
    runList I (.act a :: s) m = runList I s m' := by
  rw [runList, runStmt_act ran going]
  rfl

theorem runList_inert {α : Type} {f : α → Action} {m} (inert : ∀ x, runAction I (f x) m = some m)
    (going : ∀ x, f x ≠ .break) (xs : List α) : runList I (xs.map fun x => .act (f x)) m = some (m, .next) := by
  induction xs with
  | nil => rfl
  | cons x xs ih => rw [List.map_cons, runList_act (inert x) (going x), ih]

/-- At `place`, the statements show what `r` says, and declare constants in `W` only. `alone` is whether they may
replace all content. -/
def Realises (I : Interpretation σ ν) (W : Temp → Prop) (place : Place) (alone : Prop) (s : List Stmt)
    (r : σ → List Tree × σ) : Prop :=
  ∀ ⦃m p⦄, Ready m place alone p → Adds (runList I s m) m W p (r m.world)

section

variable {W W' : Temp → Prop} {m m' : Machine σ ν} {place : Place} {alone alone' : Prop} {p : Nat} {trees : List Tree}
  {s t : List Stmt} {r r' : σ → List Tree × σ}

theorem Realises.mono (h : Realises I W place alone s r) (wider : ∀ t, W t → W' t)
    (fewer : place.lone = true → alone → alone') : Realises I W' place alone' s r :=
  fun _ _ ready => (h (ready.mono fewer)).mono wider

theorem Realises.nil : Realises I W place alone [] fun w => ([], w) := fun m _ _ => Adds.nothing m

theorem Realises.append (h : Realises I W place alone s r) (h' : Realises I W place alone' t r')
    (outside : Outside W place.node) (many : place.lone = true → ¬ alone') :
    Realises I W place alone (s ++ t) fun w => followedBy (r w) r' := by
  intro m p ready
  rw [runList_append]
  refine (h ready).andThen ready.old fun m' g world => ?_
  rw [← world]
  exact h' (ready.gained g outside many)

theorem Realises.at {inner} (h : Realises I W inner alone' s r) (same : inner.node = place.node)
    (alike : inner.lone = true → inner = place ∧ (alone' → alone)) : Realises I W place alone s r := by
  intro m p ready
  refine h ⟨same ▸ ready.node, ready.old, fun real lone one => ?_⟩
  obtain ⟨rfl, fewer⟩ := alike lone
  exact ready.empty real lone (fewer one)

theorem Realises.appendText (items : List Fragment) :
    Realises I W place alone [.act (.appendText place.node items)] fun w => ([.text (I.text items w)], w) := by
  intro m p ready
  refine ⟨_, ?_, ?_, Gains.appendText m (I.text items m.world) ready.old⟩
  · refine runList_act ?_ (by simp) []
    rw [runAction, ready.node]
    rfl
  · rfl

theorem Realises.setContent {items} (real : place.isReal = true) (lone : place.lone = true) (one : alone)
    (solid : ∀ w, I.text items w ≠ "") :
    Realises I W place alone [.act (.setContent place.real items)] fun w => ([.text (I.text items w)], w) := by
  intro m p ready
  have node : place.real = place.node := of_decide_eq_true real
  refine ⟨_, ?_, ?_, Gains.setText m (solid m.world) ready.old (ready.empty real lone one)⟩
  · refine runList_act ?_ (by simp) []
    rw [runAction, node, ready.node]
    rfl
  · rfl

theorem Realises.gathered {f body} (real : place.isReal = true)
    (content : Realises I W' ⟨place.real, .temp f, false⟩ alone' body r) (apart : ¬ W' f) (mine : W f)
    (within : ∀ t, W' t → W t) (outside : Outside W place.node) :
    Realises I W place alone (.act (.createFragment f) :: body ++ [.act (.append place.real f)]) r := by
  intro m p ready
  have node : place.real = place.node := of_decide_eq_true real
  have made : Filled W m (m.create f .fragment) f .fragment [] := Filled.create m .fragment mine
  have here : Ready (m.create f .fragment) ⟨place.real, .temp f, false⟩ alone' m.heap.size :=
    ⟨made.node?, made.grows, nofun⟩
  obtain ⟨m', ran, world, g⟩ := content here
  have filled := made.gain g apart within
  rw [List.nil_append] at filled
  have target : m'.node? place.real = some p := by rw [node, filled.outer? outside, ready.node]
  refine ⟨_, ?_, ?_, filled.attach_fragment ready.old⟩
  · rw [List.cons_append, runList_act rfl (by simp), runList_append, ran]
    refine runList_act ?_ (by simp) []
    rw [runAction, target, filled.declared]
    rfl
  · exact world

theorem runBindings {e kind} (f : Filled W m m' e kind trees) (bindings : List Binding) :
    ∃ m'', runList I (bindings.map fun b => following b.value.liveness (.bind e b.name b.value)) m' =
      some (m'', .next) ∧
      m''.world = m'.world ∧ Filled W m m'' e kind (bindings.foldl (fun trees b =>
        if b.name = contentProperty then textTrees (I.bindingText m'.world b.value) else trees) trees) := by
  induction bindings generalizing m' trees with
  | nil => exact ⟨m', rfl, rfl, f⟩
  | cons b bindings ih =>
    have step : ∃ next, runAction I (.bind e b.name b.value) m' = some next ∧ next.world = m'.world ∧
        Filled W m next e kind
          (if b.name = contentProperty then textTrees (I.bindingText m'.world b.value) else trees) := by
      by_cases own : b.name = contentProperty
      · rw [if_pos own]
        refine ⟨_, ?_, ?_, f.setText _⟩
        · rw [runAction, f.declared, Option.map_some, if_pos own]
        · rfl
      · refine ⟨m', ?_, rfl, ?_⟩
        · rw [runAction, f.declared, Option.map_some, if_neg own]
        · rw [if_neg own]
          exact f
    obtain ⟨next, ran, world, filled⟩ := step
    obtain ⟨last, ranRest, worldRest, filledRest⟩ := ih filled
    have here : runStmt I (following b.value.liveness (.bind e b.name b.value)) m' = some (next, .next) := by
      unfold following
      split
      · rw [runStmt, ran]
        rfl
      · exact runStmt_act ran (by simp)
    rw [world] at worldRest filledRest
    refine ⟨last, ?_, worldRest, filledRest⟩
    rw [List.map_cons, runList, here]
    exact ranRest

theorem runOpening {e} (mine : W e) (tag : Tag) (m : Machine σ ν) :
    ∃ m', runList I (openingStatements e tag) m = some (m', .next) ∧ m'.world = m.world ∧
      Filled W m m' e (.element tag.name tag.classes) (boundTrees I m.world tag.bindings) := by
  have made := Filled.create m (.element tag.name tag.classes) mine
  obtain ⟨m', ran, world, filled⟩ := runBindings (I := I) made tag.bindings
  refine ⟨m', ?_, world, filled⟩
  have ids := runList_inert (I := I) (f := fun id => .setId e id) (m := m.create e (.element tag.name tag.classes))
    (by intro id; rw [runAction, made.declared]; rfl) nofun tag.id.toList
  have listeners := runList_inert (I := I) (f := fun l => .listen e l) (m := m')
    (by intro l; rw [runAction, filled.declared]; rfl) nofun tag.listeners
  rw [openingStatements, List.cons_append, List.cons_append, runList_act rfl (by simp),
    runList_append, runList_append, ids]
  show andThen (runList I _ _) _ = _
  rw [ran]
  exact listeners

theorem Realises.element {e tag body} (content : Realises I W' (.element e) alone' body r) (apart : ¬ W' e)
    (mine : W e) (within : ∀ t, W' t → W t) (outside : Outside W place.node)
    (own : alone' → ∀ w, boundTrees I w tag.bindings = []) :
    Realises I W place alone (elementStatements e tag [] place body)
      fun w => ([.element tag.name tag.classes (boundTrees I w tag.bindings ++ (r w).1)], (r w).2) := by
  intro m p ready
  obtain ⟨m', ran, world, made⟩ := runOpening (I := I) mine tag m
  have here : Ready m' (.element e) alone' m.heap.size := by
    refine ⟨made.node?, made.grows, fun _ _ one => ?_⟩
    obtain ⟨kids, cell, shown⟩ := made.content
    rw [own one] at shown
    cases shown
    rw [cell]
  obtain ⟨m'', ranBody, worldBody, g⟩ := content here
  have filled := made.gain g apart within
  have target : m''.node? place.node = some p := (filled.outer? outside).trans ready.node
  rw [world] at worldBody filled
  have receivers := runList_inert (I := I) (f := fun r : Receiver => .receive e r.code) (m := m'')
    (by intro r; rw [runAction, filled.declared]; rfl) nofun tag.receivers
  refine ⟨_, ?_, ?_, filled.attach_element ready.old⟩
  · rw [elementStatements, closingStatements, List.nil_append, runList_append, runList_append, ran]
    show andThen (runList I body m') _ = _
    rw [ranBody]
    show runList I _ m'' = _
    rw [runList_append, receivers]
    refine runList_act ?_ (by simp) []
    rw [runAction, target, filled.declared]
    rfl
  · exact worldBody

end

end ComponentCompiler.Program.Dom
