import ComponentCompiler.Diagnostic.Log

/-!
# Runs that commute with a change of state
-/

namespace ComponentCompiler

def Commutes (S : σ → σ) (φ : α → β) (m : StateM σ α) (n : StateM σ β) : Prop :=
  ∀ s, n.run (S s) = (φ (m.run s).1, S (m.run s).2)

namespace Commutes

variable {σ α β γ δ : Type} {S : σ → σ} {φ : α → β} {ψ : γ → δ}

theorem pure (a : α) : Commutes S φ (pure a) (pure (φ a)) := fun _ => rfl

theorem result {a b} (same : b = φ a) : Commutes S φ (Pure.pure a) (Pure.pure b) := same ▸ pure a

theorem bind {m n} {f : α → StateM σ γ} {g : β → StateM σ δ} (first : Commutes S φ m n)
    (next : ∀ a, Commutes S ψ (f a) (g (φ a))) : Commutes S ψ (m >>= f) (n >>= g) := by
  intro s
  have ran := first s
  have later := next (m.run s).1 (m.run s).2
  have split : (n >>= g).run (S s) = (g (n.run (S s)).1).run (n.run (S s)).2 := rfl
  rw [split, ran, later]
  rfl

theorem ite {c : Prop} [Decidable c] {m m' n n'} (yes : Commutes S φ m n) (no : Commutes S φ m' n') :
    Commutes S φ (if c then m else m') (if c then n else n') := by
  split
  · exact yes
  · exact no

theorem map {m n} {f : α → γ} {g : β → δ} (inner : Commutes S φ m n) (same : ∀ a, g (φ a) = ψ (f a)) :
    Commutes S ψ (f <$> m) (g <$> n) := by
  intro s
  rw [StateT.run_map, StateT.run_map, inner s]
  exact congrArg (Prod.mk · _) (same _)

theorem whenever {c : Prop} [Decidable c] {m n : StateM σ PUnit} {r r'} (first : Commutes S id m n)
    (rest : Commutes S ψ r r') :
    Commutes S ψ (if c then m >>= fun _ => r else r) (if c then n >>= fun _ => r' else r') :=
  ite (bind first fun _ => rest) rest

theorem modify {f g : σ → σ} (apart : ∀ s, g (S s) = S (f s)) : Commutes S id (modify f) (modify g) := fun s =>
  congrArg (Prod.mk ()) (apart s)

theorem get {f : σ → StateM σ γ} {g : σ → StateM σ δ} (next : ∀ s, Commutes S ψ (f s) (g (S s))) :
    Commutes S ψ (get >>= f) (get >>= g) := fun s => next s s

theorem foldlM {f : α → γ → StateM σ α} {g : β → δ → StateM σ β} (step : ∀ a c, Commutes S φ (f a c) (g (φ a) (ψ c)))
    (a : α) (cs : List γ) : Commutes S φ (cs.foldlM f a) ((cs.map ψ).foldlM g (φ a)) := by
  induction cs generalizing a with
  | nil => exact pure a
  | cons c cs ih =>
    rw [List.foldlM_cons, List.map_cons, List.foldlM_cons]
    exact bind (step a c) ih

end Commutes

def Region.respan (f : Span → Span) : Region → Region
  | .file name => .file name
  | .span s => .span (f s)

def Diagnostic.respan (f : Span → Span) (d : Diagnostic) : Diagnostic := { d with region := d.region.respan f }

def Log.respan (f : Span → Span) (log : Log) : Log := log.map (Diagnostic.respan f)

@[simp] theorem Log.respan_append (f : Span → Span) (a b : Log) : Log.respan f (a ++ b) = a.respan f ++ b.respan f :=
  List.map_append

@[simp] theorem Log.respan_id (log : Log) : log.respan id = log := by
  refine (List.map_congr_left fun d _ => ?_).trans (List.map_id log)
  obtain ⟨_, _, region, _, _⟩ := d
  cases region <;> rfl

@[simp] theorem Log.hasErrors_respan (f : Span → Span) (log : Log) : (log.respan f).hasErrors = log.hasErrors := by
  rw [Log.respan, Log.hasErrors, List.any_map]
  rfl

def Log.spans (log : Log) : List Span := log.filterMap (·.region.span?)

theorem Log.mem_spans {log : Log} {s} : s ∈ log.spans ↔ ∃ d ∈ log, d.region = .span s := by
  have region : ∀ r : Region, r.span? = some s ↔ r = .span s := by
    intro r
    cases r <;> simp [Region.span?]
  simp [Log.spans, region]

theorem Log.spans_append (a b : Log) : Log.spans (a ++ b) = a.spans ++ b.spans := List.filterMap_append

end ComponentCompiler
