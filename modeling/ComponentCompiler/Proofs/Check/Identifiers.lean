import ComponentCompiler.Proofs.Program.Parts

/-!
# Identifiers in templates

The names that a template brings into a program as they stand are identifiers.
-/

namespace ComponentCompiler.Template

open Program (Piece Standard Each each_nil each_cons each_append each_map each_values each_properties isAttributeName)
open Text

/-- Names are identifiers, whatever code and texts are; nothing is fixed. -/
def identifiers : Standard where
  Fixed _ := False
  Name text := isIdentifier text = true
  Code _ := True
  Content _ := True

theorem isIdentifierStart_of_nameStart {c} (h : isNameStart c = true) : isIdentifierStart c = true := by
  simp only [isNameStart, isIdentifierStart, Bool.or_eq_true] at h ⊢
  exact .inl h

theorem isIdentifierPart_of_namePart {c} (h : isNamePart c = true) (other : c ≠ '-') : isIdentifierPart c = true := by
  simp only [isNamePart, isIdentifierPart, Bool.or_eq_true, decide_eq_true_eq] at h ⊢
  exact .inl (h.resolve_right other)

theorem isIdentifierPart_of_wordPart {c} (h : isWordPart c = true) : isIdentifierPart c = true := by
  simp only [isWordPart, isIdentifierPart, Bool.or_eq_true] at h ⊢
  exact .inl h

namespace Outline

theorem isIdentifierStart_of_componentStart {c} (h : isComponentStart c = true) : isIdentifierStart c = true := by
  have upper : isAsciiLetter c = true := by
    simp only [isComponentStart] at h
    simp [isAsciiLetter, h]
  simp [isIdentifierStart, upper]

theorem Named.identifier {first part : Char → Bool} {text} (named : Named first part text)
    (starts : ∀ c, first c = true → isIdentifierStart c = true)
    (parts : ∀ c ∈ text.toList, part c = true → isIdentifierPart c = true) : isIdentifier text = true := by
  obtain ⟨start, each⟩ := named
  unfold isIdentifier
  cases letters : text.toList with
  | nil =>
    rw [letters] at start
    cases start
  | cons c cs =>
    rw [letters] at start each parts
    have rest : ∀ d ∈ cs, isIdentifierPart d = true := fun d mem =>
      parts d (List.mem_cons_of_mem c mem) (each d (List.mem_cons_of_mem c mem))
    exact Bool.and_eq_true_iff.2 ⟨starts c start, List.all_eq_true.2 rest⟩

theorem IsName.identifier {name} (named : IsName name) (property : isAttributeName name = false) :
    isIdentifier name = true := by
  refine Named.identifier named (fun c => isIdentifierStart_of_nameStart) fun c mem part => ?_
  refine isIdentifierPart_of_namePart part fun dash => ?_
  subst dash
  have quoted : isAttributeName name = true := List.contains_iff_mem.2 mem
  rw [property] at quoted
  cases quoted

end Outline

theorem Outline.Attribute.read?_binding {a : Outline.Attribute} {b : Binding} (fine : a.WellFormed)
    (read : a.read? = some (.binding b)) : Outline.IsName b.name := by
  have named (other : ∀ kind, a.sigil ≠ .receiver kind) : Outline.IsName a.name := by
    have name := fine.name
    split at name
    · rename_i kind same
      exact absurd same (other kind)
    · exact name.1
  unfold Outline.Attribute.read? at read
  split at read
  · rename_i plain
    cases read
    exact named (by simp [plain])
  · rename_i reactive _
    cases read
    exact named (by simp [reactive])
  · cases read
  · cases read
  · split at read <;> cases read
  · cases read

theorem exists_of_mem_mapM {α β : Type} {f : α → Option β} {xs : List α} {ys} (listed : xs.mapM f = some ys) :
    ∀ y ∈ ys, ∃ x ∈ xs, f x = some y := by
  induction xs generalizing ys with
  | nil =>
    cases listed
    simp
  | cons x xs ih =>
    rw [List.mapM_cons] at listed
    obtain ⟨y, first, rest⟩ := Option.bind_eq_some_iff.1 listed
    obtain ⟨others, later, done⟩ := Option.bind_eq_some_iff.1 rest
    cases done
    refine List.forall_mem_cons.2 ⟨⟨x, List.mem_cons_self, first⟩, fun z mem => ?_⟩
    obtain ⟨w, member, read⟩ := ih later z mem
    exact ⟨w, List.mem_cons_of_mem x member, read⟩

section

variable {first part : Char → Bool} {h : Outline.Header} {head : Head} {event : String × Handler → String × Handler}

theorem Outline.Header.head?_name (read : h.head? event = some head) : head.name = h.name := by
  obtain ⟨attributes, -, rfl⟩ := Option.map_eq_some_iff.1 read
  rfl

theorem Outline.Header.WellFormed.properties (fine : h.WellFormed first part) (read : h.head? event = some head) :
    Each identifiers head.properties := by
  obtain ⟨attributes, listed, rfl⟩ := Option.map_eq_some_iff.1 read
  refine each_properties.2 fun b mem property => ?_
  obtain ⟨r, among, found⟩ := List.mem_filterMap.1 mem
  cases r <;> cases found
  obtain ⟨a, member, taken⟩ := exists_of_mem_mapM listed _ among
  exact (a.read?_binding (fine.attributes a member) taken).identifier property

end

theorem Head.values_identifiers (h : Head) : Each identifiers h.values := by
  refine each_values.2 ⟨fun f _ => ?_, fun b _ => ?_, fun l _ => ?_, fun _ _ => trivial, fun _ _ => trivial⟩
  · cases f <;> simp [Fragment.pieces, identifiers]
  · cases b.value <;> simp [BindingValue.pieces, identifiers]
  · simp [Listener.pieces, identifiers]

theorem Argument.loopNames_index {before pattern name}
    (read : Argument.loopNames before = .ok (pattern, some name)) : isIdentifier name = true := by
  unfold Argument.loopNames at read
  split at read
  · dsimp only at read
    split at read <;> cases read
  · dsimp only at read
    split at read
    · cases read
    · split at read
      · rename_i identifier
        cases read
        rw [isIdentifier, String.toList_ofList]
        exact identifier
      · cases read
  · cases read

theorem Argument.loop_index {text span loop name} (read : Argument.loop text span = .ok loop)
    (given : loop.index = some name) : isIdentifier name = true := by
  unfold Argument.loop at read
  split at read
  · cases read
  · split at read
    · cases read
    · split at read
      · cases read
      · rename_i names
        cases read
        cases given
        exact Argument.loopNames_index names

namespace Outline.Directive

variable {d : Outline.Directive}

theorem slot?_identifier {name} (found : d.slot? = some name) : isIdentifier name = true := by
  unfold slot? at found
  split at found
  · cases found
    rfl
  · split at found
    · rename_i identifier
      cases found
      exact identifier
    · cases found

theorem named?_identifier {named} (found : d.named? = some named) : isIdentifier named.1 = true := by
  obtain ⟨argument, -, taken⟩ := Option.bind_eq_some_iff.1 found
  split at taken
  · split at taken
    · rename_i identifier
      cases taken
      rw [isIdentifier, String.toList_ofList]
      exact identifier
    · cases taken
  · cases taken

theorem loop?_identifier {loop} (found : d.loop? = some loop) :
    ∀ name ∈ loop.index.toList, isIdentifier name = true := by
  obtain ⟨argument, -, taken⟩ := Option.bind_eq_some_iff.1 found
  intro name mem
  cases read : Argument.loop argument.text.toList argument.span with
  | error e =>
    rw [read] at taken
    cases taken
  | ok loop' =>
    rw [read] at taken
    cases taken
    exact Argument.loop_index read (Option.mem_toList.1 mem)

theorem read?_identifiers {keyword} (read : d.read? = some keyword) : Each identifiers keyword.pieces := by
  have coded (texts : List String) : Each identifiers (texts.map .code) := each_map.2 fun _ _ => trivial
  obtain ⟨-, given⟩ := supplies_of_read read
  cases keyword with
  | conditional e | elseIf e | choice e | switch e | case _ e => exact coded [e.code.text]
  | otherwise | default => exact each_nil
  | when => exact each_map.2 fun _ _ => trivial
  | each loop =>
    exact each_append.2 ⟨coded [loop.pattern, loop.collection.code.text], each_map.2 (loop?_identifier given)⟩
  | slot | insertion => exact each_cons.2 ⟨slot?_identifier given, each_nil⟩
  | template =>
    obtain ⟨pieces, span, found, -⟩ := given
    exact each_cons.2 ⟨named?_identifier found, coded _⟩
  | templateUse =>
    obtain ⟨pieces, span, found, -⟩ := given
    exact each_cons.2 ⟨named?_identifier found, each_map.2 fun _ _ => trivial⟩

end Outline.Directive

section

variable {P : Form → Prop} {forms : List Form}

theorem Form.forall_joinText (texts : ∀ items, P (.text items)) (each : ∀ f ∈ forms, P f) :
    ∀ f ∈ Form.joinText forms, P f := by
  induction forms with
  | nil => exact each
  | cons f forms ih =>
    obtain ⟨here, others⟩ := List.forall_mem_cons.1 each
    have later := ih others
    cases f with
    | text items =>
      unfold Form.joinText
      split
      · exact later
      · unfold Form.textBefore
        split
        · rename_i more rest joined
          rw [joined] at later
          exact List.forall_mem_cons.2 ⟨texts _, (List.forall_mem_cons.1 later).2⟩
        · exact List.forall_mem_cons.2 ⟨texts _, later⟩
    | tag | component | directive => exact List.forall_mem_cons.2 ⟨here, later⟩

theorem Form.forall_slotted (each : ∀ f ∈ forms, P f)
    (wrapped : ∀ others ⊆ forms, P (.directive (.insertion defaultSlot) others)) : ∀ f ∈ Form.slotted forms, P f := by
  refine List.forall_mem_append.2 ⟨fun f mem => each f (List.mem_filter.1 mem).1, ?_⟩
  split
  · simp
  · exact List.forall_mem_singleton.2 (wrapped _ fun f mem => (List.mem_filter.1 mem).1)

end

/-- What holds of every form that a line of an outline is read as, once it holds of the forms below. -/
structure Form.Kept (P : Form → Prop) : Prop where
  tag {header head below} : Outline.Header.WellFormed Outline.isTagStart isNamePart header →
    header.head? id = some head →
    (∀ f ∈ below, P f) → P (.tag head below)
  component {header head below} : Outline.Header.WellFormed Outline.isComponentStart isWordPart header →
    header.head? Check.forComponent = some head → (∀ f ∈ below, P f) → P (.component head (Form.slotted below))
  text {items} : Outline.IsTextLine items → P (.text items)
  directive {d keyword below} : Outline.Directive.WellFormed d → d.read? = some keyword → (∀ f ∈ below, P f) →
    P (.directive keyword below)
  join {forms} : (∀ f ∈ forms, P f) → ∀ f ∈ Form.joinText forms, P f

section

variable {P : Form → Prop}

mutual

theorem Form.Kept.item (kept : Form.Kept P) (i : Outline.Item) {f} (fine : i.WellFormed) (read : i.form? = some f) :
    P f := by
  match i with
  | .tag header children span =>
    obtain ⟨head, headRead, rest⟩ := Option.bind_eq_some_iff.1 read
    obtain ⟨forms, listed, done⟩ := Option.bind_eq_some_iff.1 rest
    cases done
    cases fine with
    | tag line below => exact kept.tag line headRead (kept.join (kept.items children below listed))
  | .component header children span =>
    obtain ⟨head, headRead, rest⟩ := Option.bind_eq_some_iff.1 read
    obtain ⟨forms, listed, done⟩ := Option.bind_eq_some_iff.1 rest
    cases done
    cases fine with
    | component line below => exact kept.component line headRead (kept.join (kept.items children below listed))
  | .text items span =>
    cases read
    cases fine with
    | text line => exact kept.text line
  | .directive d children span =>
    obtain ⟨keyword, keywordRead, rest⟩ := Option.bind_eq_some_iff.1 read
    obtain ⟨forms, listed, done⟩ := Option.bind_eq_some_iff.1 rest
    cases done
    cases fine with
    | directive line below => exact kept.directive line keywordRead (kept.join (kept.items children below listed))

theorem Form.Kept.items (kept : Form.Kept P) (items : List Outline.Item) {forms} (fine : ∀ i ∈ items, i.WellFormed)
    (listed : Outline.formList? items = some forms) : ∀ f ∈ forms, P f := by
  match items with
  | [] =>
    cases listed
    simp
  | i :: items =>
    obtain ⟨f, read, rest⟩ := Option.bind_eq_some_iff.1 listed
    obtain ⟨others, later, done⟩ := Option.bind_eq_some_iff.1 rest
    cases done
    obtain ⟨here, below⟩ := List.forall_mem_cons.1 fine
    exact List.forall_mem_cons.2 ⟨kept.item i here read, kept.items items below later⟩

end

theorem Form.Kept.accepted (kept : Form.Kept P) {source base items slots region log es log'}
    (read : Outline.parse source base = .ok items)
    (accepted : check items slots region log = (some es, log')) : ∀ f ∈ formsOf es, P f := by
  have fine := Outline.parse_wellFormed read
  obtain ⟨_, conserved, -⟩ := check_kept (Check.kept_conserved slots) accepted
  obtain ⟨forms, listed, joined⟩ := Option.map_eq_some_iff.1 (conserved fun i mem => (fine i mem).blocksFit)
  rw [← joined]
  exact kept.join (kept.items items fine listed)

end

def Form.Identified (f : Form) : Prop := Each identifiers f.parts

theorem identified_partsOf {forms} (each : ∀ f ∈ forms, f.Identified) : Each identifiers (partsOf forms) := by
  induction forms with
  | nil => exact each_nil
  | cons f forms ih =>
    obtain ⟨here, others⟩ := List.forall_mem_cons.1 each
    exact each_append.2 ⟨here, ih others⟩

theorem identified_kept : Form.Kept Form.Identified where
  tag line read below :=
    each_append.2 ⟨each_append.2 ⟨line.properties read, Head.values_identifiers _⟩, identified_partsOf below⟩
  component {_ head _} line read below := by
    have slotted : ∀ f ∈ Form.slotted _, f.Identified := Form.forall_slotted below fun others sub =>
      each_append.2 ⟨each_cons.2 ⟨rfl, each_nil⟩, identified_partsOf fun f mem => below f (sub mem)⟩
    have name : isIdentifier head.name = true := by
      rw [Outline.Header.head?_name read]
      exact line.name.identifier (fun c => Outline.isIdentifierStart_of_componentStart)
        fun c _ => isIdentifierPart_of_wordPart
    exact each_append.2 ⟨each_cons.2 ⟨name, head.values_identifiers⟩, identified_partsOf slotted⟩
  text _ := each_cons.2 ⟨trivial, each_nil⟩
  directive _ read below := each_append.2 ⟨Outline.Directive.read?_identifiers read, identified_partsOf below⟩
  join := Form.forall_joinText fun _ => each_cons.2 ⟨trivial, each_nil⟩

end ComponentCompiler.Template
