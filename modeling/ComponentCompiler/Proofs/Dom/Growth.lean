import ComponentCompiler.Proofs.Dom.Meaning

/-!
# Growing documents

`Shows` reads the tree below a node, `Gains` and `Filled` say what a run has added to a document.
-/

namespace ComponentCompiler.Program.Dom

open Template

mutual

/-- The tree below `r`, with all its nodes in `D`. -/
inductive Shows (h : Heap) (D : Nat → Prop) : Nat → Tree → Prop where
  | element {r tag classes kids trees} (inside : D r) (here : h.cell r = ⟨.element tag classes, kids⟩)
      (content : ShowsAll h D kids trees) : Shows h D r (.element tag classes trees)
  | text {r content} (inside : D r) (here : h.cell r = ⟨.text content, []⟩) : Shows h D r (.text content)

inductive ShowsAll (h : Heap) (D : Nat → Prop) : List Nat → List Tree → Prop where
  | nil : ShowsAll h D [] []
  | cons {r kids tree trees} (first : Shows h D r tree) (rest : ShowsAll h D kids trees) :
      ShowsAll h D (r :: kids) (tree :: trees)

end

section

variable {h h' : Heap} {D D' : Nat → Prop}

mutual

theorem Shows.frame {r tree} (s : Shows h D r tree) (kept : ∀ r, D r → h'.cell r = h.cell r)
    (within : ∀ r, D r → D' r) : Shows h' D' r tree := by
  match s with
  | .element inside here content =>
    exact .element (within _ inside) ((kept _ inside).trans here) (content.frame kept within)
  | .text inside here => exact .text (within _ inside) ((kept _ inside).trans here)

theorem ShowsAll.frame {kids trees} (s : ShowsAll h D kids trees) (kept : ∀ r, D r → h'.cell r = h.cell r)
    (within : ∀ r, D r → D' r) : ShowsAll h' D' kids trees := by
  match s with
  | .nil => exact .nil
  | .cons first rest => exact .cons (first.frame kept within) (rest.frame kept within)

end

mutual

theorem Shows.unique {r tree tree'} (s : Shows h D r tree) (s' : Shows h D' r tree') : tree = tree' := by
  match s, s' with
  | .element _ here content, .element _ here' content' =>
    have same := here.symm.trans here'
    simp only [Cell.mk.injEq, NodeKind.element.injEq] at same
    obtain ⟨⟨rfl, rfl⟩, rfl⟩ := same
    rw [content.unique content']
  | .element _ here _, .text _ here' =>
    have same := here.symm.trans here'
    simp at same
  | .text _ here, .element _ here' _ =>
    have same := here.symm.trans here'
    simp at same
  | .text _ here, .text _ here' =>
    have same := here.symm.trans here'
    simp only [Cell.mk.injEq, NodeKind.text.injEq] at same
    rw [same.1]

theorem ShowsAll.unique {kids trees trees'} (s : ShowsAll h D kids trees) (s' : ShowsAll h D' kids trees') :
    trees = trees' := by
  match s, s' with
  | .nil, .nil => rfl
  | .cons first rest, .cons first' rest' => rw [first.unique first', rest.unique rest']

end

theorem ShowsAll.append {kids kids' trees trees'} (s : ShowsAll h D kids trees) (s' : ShowsAll h D kids' trees') :
    ShowsAll h D (kids ++ kids') (trees ++ trees') := by
  induction kids generalizing trees with
  | nil =>
    cases s
    exact s'
  | cons r kids ih =>
    cases s with
    | cons first rest => exact .cons first (ih rest)

end

section

variable {σ ν : Type} {W W' : Temp → Prop} {m m' m'' : Machine σ ν} {p : Nat} {trees more : List Tree}

/-- From `m` to `m'`, `trees` were appended to `p`, all of new nodes. Only constants in `W` were declared. -/
structure Gains (W : Temp → Prop) (m m' : Machine σ ν) (p : Nat) (trees : List Tree) : Prop where
  grows : m.heap.size ≤ m'.heap.size
  others : ∀ r, r < m.heap.size → r ≠ p → m'.heap.cell r = m.heap.cell r
  added : ∃ kids, m'.heap.cell p = ⟨(m.heap.cell p).kind, (m.heap.cell p).children ++ kids⟩ ∧
    ShowsAll m'.heap (fun r => m.heap.size ≤ r ∧ r < m'.heap.size) kids trees
  parent : m'.parent = m.parent
  realParent : m'.realParent = m.realParent
  temps : ∀ t, ¬ W t → m'.temps t = m.temps t

namespace Gains

theorem nothing (heap : m'.heap = m.heap) (parent : m'.parent = m.parent) (realParent : m'.realParent = m.realParent)
    (temps : m'.temps = m.temps) : Gains W m m' p [] where
  grows := Nat.le_of_eq (by rw [heap])
  others := fun r _ _ => by rw [heap]
  added := ⟨[], by rw [heap, List.append_nil], .nil⟩
  parent := parent
  realParent := realParent
  temps := fun t _ => by rw [temps]

theorem mono (g : Gains W m m' p trees) (wider : ∀ t, W t → W' t) : Gains W' m m' p trees :=
  { g with temps := fun t outside => g.temps t fun inside => outside (wider t inside) }

theorem trans (g : Gains W m m' p trees) (g' : Gains W m' m'' p more) (old : p < m.heap.size) :
    Gains W m m'' p (trees ++ more) where
  grows := Nat.le_trans g.grows g'.grows
  others := fun r before other =>
    (g'.others r (Nat.lt_of_lt_of_le before g.grows) other).trans (g.others r before other)
  added := by
    obtain ⟨kids, here, shown⟩ := g.added
    obtain ⟨kids', here', shown'⟩ := g'.added
    have step := g.grows
    have step' := g'.grows
    refine ⟨kids ++ kids', ?_, ShowsAll.append (shown.frame ?_ ?_) (shown'.frame ?_ ?_)⟩
    · rw [here', here, List.append_assoc]
    · rintro r ⟨low, high⟩
      exact g'.others r high (by omega)
    · rintro r ⟨low, high⟩
      exact ⟨low, by omega⟩
    · exact fun _ _ => rfl
    · rintro r ⟨low, high⟩
      exact ⟨by omega, high⟩
  parent := g'.parent.trans g.parent
  realParent := g'.realParent.trans g.realParent
  temps := fun t outside => (g'.temps t outside).trans (g.temps t outside)

theorem node? (g : Gains W m m' p trees) {node} (outside : ∀ t, node = .temp t → ¬ W t) :
    m'.node? node = m.node? node := by
  cases node with
  | parent => exact congrArg some g.parent
  | realParent => exact congrArg some g.realParent
  | temp t => exact g.temps t (outside t rfl)

theorem unique (g : Gains W m m' p trees) (g' : Gains W' m m' p more) : trees = more := by
  obtain ⟨kids, here, shown⟩ := g.added
  obtain ⟨kids', here', shown'⟩ := g'.added
  have same := here.symm.trans here'
  simp only [Cell.mk.injEq, List.append_cancel_left_eq, true_and] at same
  subst same
  exact shown.unique shown'

theorem appendText (m : Machine σ ν) (content : String) (old : p < m.heap.size) :
    Gains W m { m with heap := (m.heap.alloc (.text content)).addChildren p [m.heap.size] } p [.text content] where
  grows := Nat.le_succ _
  others := fun r before other => (if_neg other).trans (if_neg (Nat.ne_of_lt before))
  added := by
    have here : (m.heap.alloc (.text content)).cell p = m.heap.cell p := if_neg (Nat.ne_of_lt old)
    have fresh : m.heap.size ≠ p := (Nat.ne_of_lt old).symm
    refine ⟨[m.heap.size], (if_pos rfl).trans ?_, .cons (.text ⟨Nat.le_refl _, Nat.lt_succ_self _⟩ ?_) .nil⟩
    · rw [here]
    · exact (if_neg fresh).trans (if_pos rfl)
  parent := rfl
  realParent := rfl
  temps := fun _ _ => rfl

/-- The text of `p` in place of what it gained, if it was empty before. -/
theorem replace (g : Gains W m m' p trees) (old : p < m.heap.size) (bare : (m.heap.cell p).children = [])
    (content : String) : Gains W m { m' with heap := m'.heap.setText p content } p (textTrees content) := by
  obtain ⟨kids, here, -⟩ := g.added
  have kind : (m'.heap.cell p).kind = (m.heap.cell p).kind := by rw [here]
  have step := g.grows
  by_cases empty : content = ""
  · have heap : m'.heap.setText p content = m'.heap.setChildren p [] := if_pos empty
    have trees : textTrees content = [] := if_pos empty
    rw [heap, trees]
    exact { g with
      others := fun r before other => (if_neg other).trans (g.others r before other)
      added := ⟨[], (if_pos rfl).trans (by rw [kind, bare, List.nil_append]), .nil⟩ }
  · have heap : m'.heap.setText p content = (m'.heap.alloc (.text content)).setChildren p [m'.heap.size] := if_neg empty
    have trees : textTrees content = [.text content] := if_neg empty
    have kept : ∀ r, r < m.heap.size → (m'.heap.alloc (.text content)).cell r = m'.heap.cell r :=
      fun r before => if_neg (by omega)
    have fresh : m'.heap.size ≠ p := by omega
    rw [heap, trees]
    refine { g with grows := Nat.le_succ_of_le step, others := fun r before other => ?_, added := ?_ }
    · exact (if_neg other).trans ((kept r before).trans (g.others r before other))
    · refine ⟨[m'.heap.size], (if_pos rfl).trans ?_, .cons (.text ⟨step, Nat.lt_succ_self _⟩ ?_) .nil⟩
      · rw [kept p old, kind, bare, List.nil_append]
      · exact (if_neg fresh).trans (if_pos rfl)

theorem setText (m : Machine σ ν) {content} (solid : content ≠ "") (old : p < m.heap.size)
    (bare : (m.heap.cell p).children = []) :
    Gains W m { m with heap := m.heap.setText p content } p [.text content] := by
  have trees : textTrees content = [.text content] := if_neg solid
  rw [← trees]
  exact (nothing rfl rfl rfl rfl).replace old bare content

end Gains

/-- From `m` to `m'`, the node of `t` was made and filled with `trees`. -/
structure Filled (W : Temp → Prop) (m m' : Machine σ ν) (t : Temp) (kind : NodeKind) (trees : List Tree) : Prop where
  mine : W t
  gains : Gains (fun u => W u ∧ u ≠ t) (m.create t kind) m' m.heap.size trees

namespace Filled

variable {t : Temp} {kind : NodeKind}

theorem create (m : Machine σ ν) (kind : NodeKind) (mine : W t) : Filled W m (m.create t kind) t kind [] :=
  ⟨mine, .nothing rfl rfl rfl rfl⟩

theorem gain (f : Filled W m m' t kind trees) (g : Gains W' m' m'' m.heap.size more) (apart : ¬ W' t)
    (within : ∀ u, W' u → W u) : Filled W m m'' t kind (trees ++ more) :=
  ⟨f.mine, f.gains.trans (g.mono fun u inside => ⟨within u inside, fun same => apart (same ▸ inside)⟩)
    (Nat.lt_succ_self _)⟩

theorem setText (f : Filled W m m' t kind trees) (content : String) :
    Filled W m { m' with heap := m'.heap.setText m.heap.size content } t kind (textTrees content) :=
  ⟨f.mine, f.gains.replace (Nat.lt_succ_self _) (congrArg Cell.children (if_pos rfl)) content⟩

section

variable (f : Filled W m m' t kind trees)

include f

theorem grows : m.heap.size < m'.heap.size := f.gains.grows

theorem others (r : Nat) (before : r < m.heap.size) : m'.heap.cell r = m.heap.cell r :=
  (f.gains.others r (Nat.lt_succ_of_lt before) (Nat.ne_of_lt before)).trans (if_neg (Nat.ne_of_lt before))

theorem content : ∃ kids, m'.heap.cell m.heap.size = ⟨kind, kids⟩ ∧
    ShowsAll m'.heap (fun r => m.heap.size < r ∧ r < m'.heap.size) kids trees := by
  obtain ⟨kids, here, shown⟩ := f.gains.added
  have fresh : (m.create t kind).heap.cell m.heap.size = ⟨kind, []⟩ := if_pos rfl
  rw [fresh] at here
  exact ⟨kids, here, shown⟩

theorem declared : m'.temps t = some m.heap.size :=
  (f.gains.temps t fun inside => inside.2 rfl).trans (if_pos rfl)

theorem temps (u : Temp) (outside : ¬ W u) : m'.temps u = m.temps u := by
  have other : u ≠ t := fun same => outside (same ▸ f.mine)
  exact (f.gains.temps u fun inside => outside inside.1).trans (if_neg other)

theorem node? : m'.node? (.temp t) = some m.heap.size := f.declared

end

theorem outer? (f : Filled W m m' t kind trees) {node} (outside : ∀ u, node = .temp u → ¬ W u) :
    m'.node? node = m.node? node := by
  cases node with
  | parent => exact congrArg some f.gains.parent
  | realParent => exact congrArg some f.gains.realParent
  | temp u => exact f.temps u (outside u rfl)

theorem attach_element {tag classes} (f : Filled W m m' t (.element tag classes) trees) (old : p < m.heap.size) :
    Gains W m { m' with heap := m'.heap.attach p m.heap.size } p [.element tag classes trees] := by
  obtain ⟨kids, here, shown⟩ := f.content
  have step := f.grows
  have fresh : m.heap.size ≠ p := by omega
  have heap : m'.heap.attach p m.heap.size = m'.heap.addChildren p [m.heap.size] := if_neg (by rw [here]; nofun)
  have kept : ∀ r, r ≠ p → (m'.heap.addChildren p [m.heap.size]).cell r = m'.heap.cell r := fun r other => if_neg other
  rw [heap]
  refine { grows := Nat.le_of_lt step, others := fun r before other => (kept r other).trans (f.others r before),
           added := ?_, parent := f.gains.parent, realParent := f.gains.realParent, temps := f.temps }
  refine ⟨[m.heap.size], (if_pos rfl).trans (by rw [f.others p old]), ?_⟩
  refine .cons (.element ⟨Nat.le_refl _, step⟩ ((kept _ fresh).trans here) (shown.frame ?_ ?_)) .nil
  · rintro r ⟨low, -⟩
    exact kept r (by omega)
  · rintro r ⟨low, high⟩
    exact ⟨Nat.le_of_lt low, high⟩

theorem attach_fragment (f : Filled W m m' t .fragment trees) (old : p < m.heap.size) :
    Gains W m { m' with heap := m'.heap.attach p m.heap.size } p trees := by
  obtain ⟨kids, here, shown⟩ := f.content
  have step := f.grows
  have fresh : p ≠ m.heap.size := by omega
  have heap : m'.heap.attach p m.heap.size = (m'.heap.addChildren p kids).setChildren m.heap.size [] := by
    rw [Heap.attach, here, if_pos rfl]
  have kept : ∀ r, r ≠ p → r ≠ m.heap.size →
      ((m'.heap.addChildren p kids).setChildren m.heap.size []).cell r = m'.heap.cell r :=
    fun r other apart => (if_neg apart).trans (if_neg other)
  rw [heap]
  refine { grows := Nat.le_of_lt step, others := ?_,
           added := ?_, parent := f.gains.parent, realParent := f.gains.realParent, temps := f.temps }
  · intro r before other
    exact (kept r other (Nat.ne_of_lt before)).trans (f.others r before)
  · refine ⟨kids, (if_neg fresh).trans ((if_pos rfl).trans (by rw [f.others p old])), shown.frame ?_ ?_⟩
    · rintro r ⟨low, -⟩
      exact kept r (by omega) (by omega)
    · rintro r ⟨low, high⟩
      exact ⟨Nat.le_of_lt low, high⟩

end Filled

end

end ComponentCompiler.Program.Dom
