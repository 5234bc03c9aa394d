import ComponentCompiler.Proofs.Respan.Check

/-!
# Moving a template section

Main statement: `parse_moved`.
-/

namespace ComponentCompiler

@[simp] theorem SlotTable.respan_id (table : SlotTable) : SlotTable.respan id table = table := List.map_id table

@[simp] theorem Diagnostic.respan_id (d : Diagnostic) : d.respan id = d := by
  obtain ⟨_, _, region, _, _⟩ := d
  cases region <;> rfl

namespace Template

/-- What a diagnostic of a template becomes when the section moves by `k` bytes and the script stays. -/
def moveDiagnostic (k : Nat) (d : Diagnostic) : Diagnostic :=
  if d.rule = .slotRequiredUnused then d else d.respan (·.shift k)

theorem relocate_shift (k : Nat) : relocate (·.shift k) id = moveDiagnostic k := by
  funext d
  unfold relocate moveDiagnostic
  cases rule : d.rule <;> simp [atRule]

theorem check_moved (items : List Outline.Item) (slots : Option SlotTable) (region : Span) (k : Nat) :
    check (Outline.respanItems (·.shift k) items) slots (region.shift k) [] =
      ((check items slots region []).1.map (respanList (·.shift k)),
        (check items slots region []).2.map (moveDiagnostic k)) := by
  have joins : ∀ s t : Span, (s.merge t).shift k = (s.shift k).merge (t.shift k) := fun s t => s.shift_merge t k
  have still : slots.map (SlotTable.respan id) = slots := by cases slots <;> simp
  have moved := check_respan (f := (·.shift k)) (g := id) joins items slots region
  rwa [still, relocate_shift] at moved

def moveOutcome (k : Nat) :
    Except ParseError (Option (List Entity) × Log) → Except ParseError (Option (List Entity) × Log)
  | .error e => .error (e.respan (·.shift k))
  | .ok (entities, log) => .ok (entities.map (respanList (·.shift k)), log.map (moveDiagnostic k))

/-- A template section that starts `k` bytes further on has the same outcome, `k` bytes further on. -/
theorem parse_moved (source : String) (base k : Nat) (slots : Option SlotTable) :
    parse source (base + k) slots [] = moveOutcome k (parse source base slots []) := by
  have region : (⟨base + k, base + k + Text.byteLength source.toList⟩ : Span) =
      Span.shift ⟨base, base + Text.byteLength source.toList⟩ k := by
    simp [Span.shift, Nat.add_right_comm]
  unfold parse
  rw [Outline.parse_shift, region]
  cases Outline.parse source base with
  | error e => rfl
  | ok items => exact congrArg Except.ok (check_moved items slots _ k)

end Template

end ComponentCompiler
