import ComponentCompiler.Program.Lower

/-!
# Running generated programs

A document is a heap of numbered nodes. Statements that call the runtime have no outcome here.
-/

namespace ComponentCompiler.Program.Dom

open Template

inductive NodeKind where
  | element (tag : String) (classes : List Fragment)
  | text (content : String)
  | fragment
  deriving DecidableEq

structure Cell where
  kind : NodeKind
  children : List Nat

/-- The nodes made so far are those below `size`. -/
structure Heap where
  size : Nat
  cell : Nat → Cell

namespace Heap

def alloc (h : Heap) (kind : NodeKind) : Heap :=
  ⟨h.size + 1, fun r => if r = h.size then ⟨kind, []⟩ else h.cell r⟩

def setChildren (h : Heap) (p : Nat) (children : List Nat) : Heap :=
  { h with cell := fun r => if r = p then ⟨(h.cell p).kind, children⟩ else h.cell r }

def addChildren (h : Heap) (p : Nat) (more : List Nat) : Heap := h.setChildren p ((h.cell p).children ++ more)

/-- Appends a node; a fragment hands over its children and is left empty. -/
def attach (h : Heap) (p c : Nat) : Heap :=
  if (h.cell c).kind = .fragment then (h.addChildren p (h.cell c).children).setChildren c []
  else h.addChildren p [c]

/-- Replaces all children by a text; an empty text is no node. -/
def setText (h : Heap) (p : Nat) (content : String) : Heap :=
  if content = "" then h.setChildren p [] else (h.alloc (.text content)).setChildren p [h.size]

end Heap

/-- What the code of a program does. Evaluating it may change the world `σ`; a subject or a case has a value in
`ν`. -/
structure Interpretation (σ ν : Type) where
  truth : Code → σ → Bool × σ
  rounds : Loop → σ → Nat × σ
  /-- Gives the names of a loop their values for a round. -/
  enter : Loop → Nat → σ → σ
  value : Code → σ → ν × σ
  same : ν → ν → Bool
  shown : Code → σ → String

namespace Interpretation

variable {σ ν : Type} (I : Interpretation σ ν)

def fragmentText (w : σ) : Fragment → String
  | .static text => text
  | .dynamic code | .reactive code => I.shown code w

def text (items : List Fragment) (w : σ) : String := String.join (items.map (I.fragmentText w))

def bindingText (w : σ) : BindingValue → String
  | .empty => "true"
  | .static text => text
  | .dynamic code _ | .reactive code => I.shown code w

/-- Compares the codes with a value, up to the first that is the same. -/
def matchesAny (v : ν) : List Code → σ → Bool × σ
  | [], w => (false, w)
  | code :: codes, w =>
    let (u, w) := I.value code w
    if I.same v u then (true, w) else matchesAny v codes w

def matchesLabel (v : ν) : Label → σ → Bool × σ
  | .default, w => (false, w)
  | .values others last, w => I.matchesAny v (others ++ [last]) w

end Interpretation

structure Machine (σ ν : Type) where
  heap : Heap
  /-- What the enclosing function appends to, and the element around it. -/
  parent : Nat
  realParent : Nat
  temps : Temp → Option Nat
  subjects : Temp → Option ν
  world : σ

inductive Flow where
  | next
  | broke
  deriving DecidableEq

namespace Machine

variable {σ ν : Type}

def node? (m : Machine σ ν) : Node → Option Nat
  | .parent => some m.parent
  | .realParent => some m.realParent
  | .temp t => m.temps t

def create (m : Machine σ ν) (t : Temp) (kind : NodeKind) : Machine σ ν :=
  { m with
    heap := m.heap.alloc kind
    temps := fun u => if u = t then some m.heap.size else m.temps u }

def observe (m : Machine σ ν) (t : Temp) (v : ν) : Machine σ ν :=
  { m with subjects := fun u => if u = t then some v else m.subjects u }

end Machine

section

variable {σ ν : Type} (I : Interpretation σ ν)

def contentProperty : String := "textContent"

def runAction : Action → Machine σ ν → Option (Machine σ ν)
  | .createElement e tag classes, m => some (m.create e (.element tag classes))
  | .createFragment f, m => some (m.create f .fragment)
  | .createText t, m => some (m.create t (.text ""))
  | .bind e name value, m =>
    (m.temps e).map fun r =>
      if name = contentProperty then { m with heap := m.heap.setText r (I.bindingText m.world value) } else m
  | .setId e _, m | .listen e _, m | .bindProperty e _ _ _, m | .checkRadio e _, m | .listenRadio e _, m
  | .listenOptions e _, m | .receive e _, m => (m.temps e).map fun _ => m
  | .append node child, m => do
    let p ← m.node? node
    let c ← m.temps child
    return { m with heap := m.heap.attach p c }
  | .appendText node items, m =>
    (m.node? node).map fun p =>
      { m with heap := (m.heap.alloc (.text (I.text items m.world))).addChildren p [m.heap.size] }
  | .setContent node items, m =>
    (m.node? node).map fun p => { m with heap := m.heap.setText p (I.text items m.world) }
  | .declareSubject t code, m =>
    let (v, w) := I.value code m.world
    some { m.observe t v with world := w }
  | .exhaustive t, m => (m.subjects t).map fun _ => m
  | .break, m => some m
  | .setData .., _ | .slot .., _ | .optionalSlot .., _ | .templateUse .., _ => none

def andThen (first : Option (Machine σ ν × Flow)) (rest : Machine σ ν → Option (Machine σ ν × Flow)) :
    Option (Machine σ ν × Flow) := do
  let (m, flow) ← first
  match flow with
  | .next => rest m
  | .broke => return (m, .broke)

def caught (inner : Option (Machine σ ν × Flow)) : Option (Machine σ ν × Flow) := inner.map fun (m, _) => (m, .next)

def runRounds (body : Nat → Machine σ ν → Option (Machine σ ν × Flow)) (left i : Nat) (m : Machine σ ν) :
    Option (Machine σ ν × Flow) :=
  match left with
  | 0 => some (m, .next)
  | left + 1 => andThen (body i m) (runRounds body left (i + 1))

mutual

def runStmt : Stmt → Machine σ ν → Option (Machine σ ν × Flow)
  | .act .break, m => some (m, .broke)
  | .act action, m | .effect action, m => (runAction I action m).map (·, .next)
  | .conditional condition body elseIfs otherwise, m =>
    let (yes, w) := I.truth condition m.world
    if yes then runList body { m with world := w }
    else runBranches elseIfs (fun m => runOtherwise otherwise m) { m with world := w }
  | .loop loop body, m =>
    let (count, w) := I.rounds loop m.world
    caught (runRounds (fun i m => runList body { m with world := I.enter loop i m.world })
      count 0 { m with world := w })
  | .switch subject clauses, m => do
    let v ← m.subjects subject
    caught (seekClauses v clauses (fun m => defaultClauses clauses m) m)
  | .selectOptions .., _ | .region .., _ | .fallbackSlot .., _ | .component .., _ | .template .., _ => none

def runList : List Stmt → Machine σ ν → Option (Machine σ ν × Flow)
  | [], m => some (m, .next)
  | s :: rest, m => andThen (runStmt s m) fun m => runList rest m

def runBranches : List Branch → (Machine σ ν → Option (Machine σ ν × Flow)) → Machine σ ν →
    Option (Machine σ ν × Flow)
  | [], otherwise, m => otherwise m
  | .mk condition body :: branches, otherwise, m =>
    let (yes, w) := I.truth condition m.world
    if yes then runList body { m with world := w } else runBranches branches otherwise { m with world := w }

def runOtherwise : Option (List Stmt) → Machine σ ν → Option (Machine σ ν × Flow)
  | none, m => some (m, .next)
  | some body, m => runList body m

def runClauses : List Clause → Machine σ ν → Option (Machine σ ν × Flow)
  | [], m => some (m, .next)
  | .mk _ body :: clauses, m => andThen (runList body m) fun m => runClauses clauses m

def seekClauses (v : ν) : List Clause → (Machine σ ν → Option (Machine σ ν × Flow)) → Machine σ ν →
    Option (Machine σ ν × Flow)
  | [], otherwise, m => otherwise m
  | .mk label body :: clauses, otherwise, m =>
    let (hit, w) := I.matchesLabel v label m.world
    if hit then andThen (runList body { m with world := w }) fun m => runClauses clauses m
    else seekClauses v clauses otherwise { m with world := w }

def defaultClauses : List Clause → Machine σ ν → Option (Machine σ ν × Flow)
  | [], m => some (m, .next)
  | .mk label body :: clauses, m =>
    if label = .default then andThen (runList body m) fun m => runClauses clauses m else defaultClauses clauses m

end

end

end ComponentCompiler.Program.Dom
