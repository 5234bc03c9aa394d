import ComponentCompiler.Proofs.Dom.Machine

/-!
# What a template shows

`meaning` gives the trees that an entity stands for, without a program.
-/

namespace ComponentCompiler.Program.Dom

open Template

inductive Tree where
  | element (tag : String) (classes : List Fragment) (children : List Tree)
  | text (content : String)

section

variable {σ ν : Type} (I : Interpretation σ ν)

def textTrees (content : String) : List Tree := if content = "" then [] else [.text content]

/-- What the bindings of an element put into it before its children: the last text for all its content. -/
def boundTrees (w : σ) (bindings : List Binding) : List Tree :=
  bindings.foldl (fun trees b => if b.name = contentProperty then textTrees (I.bindingText w b.value) else trees) []

def followedBy (first : List Tree × σ) (rest : σ → List Tree × σ) : List Tree × σ :=
  (first.1 ++ (rest first.2).1, (rest first.2).2)

def rounds (body : Nat → σ → List Tree × σ) (left i : Nat) (w : σ) : List Tree × σ :=
  match left with
  | 0 => ([], w)
  | left + 1 => followedBy (body i w) (rounds body left (i + 1))

def falling (first : List Tree × σ) (fallsThrough : Bool) (rest : σ → List Tree × σ) : List Tree × σ :=
  if fallsThrough then followedBy first rest else first

mutual

def meaning : Entity → σ → List Tree × σ
  | .tag tag body, w =>
    let (children, w') := meanings body w
    ([.element tag.name tag.classes (boundTrees I w tag.bindings ++ children)], w')
  | .text items _, w => ([.text (I.text items w)], w)
  | .conditional condition body elseIfs otherwise _, w =>
    let (yes, w) := I.truth condition.code w
    if yes then meanings body w else elseMeaning elseIfs (fun w => optionalMeaning otherwise w) w
  | .each loop body _, w =>
    let (count, w) := I.rounds loop w
    rounds (fun i w => meanings body (I.enter loop i w)) count 0 w
  | .choice value cases default _, w =>
    let (v, w) := I.value value.code w
    chosenCase v cases (fun w => optionalMeaning default w) w
  | .switch value cases _, w =>
    let (v, w) := I.value value.code w
    soughtCase v cases (fun w => defaultCase cases w) w
  | .synced .., w | .component .., w | .slot .., w | .insertion _, w | .template .., w | .templateUse .., w => ([], w)

def meanings : List Entity → σ → List Tree × σ
  | [], w => ([], w)
  | e :: es, w => followedBy (meaning e w) fun w => meanings es w

def optionalMeaning : Option (List Entity) → σ → List Tree × σ
  | none, w => ([], w)
  | some body, w => meanings body w

def elseMeaning : List ElseIf → (σ → List Tree × σ) → σ → List Tree × σ
  | [], otherwise, w => otherwise w
  | .mk condition body :: elseIfs, otherwise, w =>
    let (yes, w) := I.truth condition.code w
    if yes then meanings body w else elseMeaning elseIfs otherwise w

def chosenCase (v : ν) : List MatchCase → (σ → List Tree × σ) → σ → List Tree × σ
  | [], otherwise, w => otherwise w
  | .mk patterns body _ :: cases, otherwise, w =>
    let (hit, w) := I.matchesAny v patterns w
    if hit then meanings body w else chosenCase v cases otherwise w

def fallenCases : List SwitchCase → σ → List Tree × σ
  | [], w => ([], w)
  | .mk _ body fallsThrough _ :: cases, w => falling (meanings body w) fallsThrough fun w => fallenCases cases w

def soughtCase (v : ν) : List SwitchCase → (σ → List Tree × σ) → σ → List Tree × σ
  | [], otherwise, w => otherwise w
  | .mk value body fallsThrough _ :: cases, otherwise, w =>
    let (hit, w) := I.matchesLabel v (switchLabel value) w
    if hit then falling (meanings body w) fallsThrough fun w => fallenCases cases w
    else soughtCase v cases otherwise w

def defaultCase : List SwitchCase → σ → List Tree × σ
  | [], w => ([], w)
  | .mk value body fallsThrough _ :: cases, w =>
    if value.isNone then falling (meanings body w) fallsThrough fun w => fallenCases cases w
    else defaultCase cases w

end

end

end ComponentCompiler.Program.Dom
