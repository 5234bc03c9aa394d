import ComponentCompiler.Files.FileSystem

/-!
# Programs on file systems

A program that only looks at files leaves them as they are (`Still`), and does the same on two file systems of which
one shows what the other does (`Projects`).
-/

namespace ComponentCompiler

theorem run_bind_of {σ α β : Type} {m d d' a} (ran : m.run d = (a, d')) (f : α → StateM σ β) :
    (m >>= f).run d = (f a).run d' := by
  show (f (m.run d).1).run (m.run d).2 = _
  rw [ran]

def Still {σ α : Type} (m : StateM σ α) : Prop := ∀ d, (m.run d).2 = d

namespace Still

variable {σ α β : Type}

theorem pure (a : α) : Still (Pure.pure a : StateM σ α) := fun _ => rfl

theorem run_eq {m : StateM σ α} (still : Still m) (d : σ) : m.run d = ((m.run d).1, d) := Prod.ext rfl (still d)

theorem run_bind {m} (still : Still m) (f : α → StateM σ β) (d : σ) : (m >>= f).run d = (f (m.run d).1).run d :=
  run_bind_of (still.run_eq d) f

theorem bind {m} {f : α → StateM σ β} (first : Still m) (next : ∀ a, Still (f a)) : Still (m >>= f) := by
  intro d
  rw [first.run_bind]
  exact next _ d

theorem mapM {f : α → StateM σ β} {as : List α} (each : ∀ a ∈ as, Still (f a)) : Still (as.mapM f) := by
  induction as with
  | nil => exact .pure []
  | cons a as ih =>
    obtain ⟨first, others⟩ := List.forall_mem_cons.1 each
    rw [List.mapM_cons]
    exact first.bind fun b => (ih others).bind fun bs => .pure _

theorem mem_flatten_mapM {f : α → StateM σ (List β)} (each : ∀ a, Still (f a)) {as : List α} {b d}
    (mem : b ∈ ((do return (← as.mapM f).flatten : StateM σ (List β)).run d).1) : ∃ a ∈ as, b ∈ ((f a).run d).1 := by
  have runs : ((as.mapM f).run d).1 = as.map fun a => ((f a).run d).1 := by
    clear mem
    induction as with
    | nil => rfl
    | cons a as ih =>
      rw [List.mapM_cons, (each a).run_bind, (mapM fun a _ => each a).run_bind, ih]
      rfl
  rw [(mapM fun a _ => each a).run_bind, runs] at mem
  obtain ⟨bs, here, mem⟩ := List.mem_flatten.1 mem
  obtain ⟨a, among, rfl⟩ := List.mem_map.1 here
  exact ⟨a, among, mem⟩

end Still

namespace Files

/-- Looking at files leaves them as they are. -/
class FileSystem.Steady {σ : Type} (fs : FileSystem (StateM σ)) : Prop where
  kind? : ∀ path, Still (fs.kind? path)
  names : ∀ path, Still (fs.names path)
  readText : ∀ path, Still (fs.readText path)

theorem FileSystem.filesUnder_still {σ : Type} (fs : FileSystem (StateM σ)) [fs.Steady] (depth : Nat) (root : Path) :
    Still (fs.filesUnder depth root) := by
  induction depth generalizing root with
  | zero => exact .pure []
  | succ depth ih =>
    unfold FileSystem.filesUnder
    refine (Steady.names root).bind fun names => .bind (.mapM fun name _ => ?_) fun found => .pure _
    split
    · exact .pure []
    · refine (Steady.kind? _).bind fun kind => ?_
      split
      · exact .pure _
      · exact ih _
      · exact .pure _

theorem FileSystem.kind?_of_mem_filesUnder {σ : Type} {fs : FileSystem (StateM σ)} [fs.Steady]
    {depth : Nat} {root path : Path}
    {d : σ} (found : path ∈ ((fs.filesUnder depth root).run d).1) : ((fs.kind? path).run d).1 = some .file := by
  induction depth generalizing root with
  | zero => cases found
  | succ depth ih =>
    unfold FileSystem.filesUnder at found
    rw [(Steady.names root).run_bind] at found
    have walk := fun each => Still.mem_flatten_mapM each found
    obtain ⟨name, -, here⟩ := walk (by
      intro name
      split
      · exact .pure []
      · refine (Steady.kind? _).bind fun kind => ?_
        split
        · exact .pure _
        · exact fs.filesUnder_still depth _
        · exact .pure _)
    split at here
    · cases here
    · rw [(Steady.kind? _).run_bind] at here
      split at here
      · rename_i file
        obtain rfl := List.mem_singleton.1 here
        exact file
      · exact ih here
      · cases here

end Files

section

variable {σ τ α β : Type} {view : σ → τ}

def Projects (view : σ → τ) (m : StateM σ α) (n : StateM τ α) : Prop :=
  ∀ d, n.run (view d) = ((m.run d).1, view (m.run d).2)

namespace Projects

theorem pure (a : α) : Projects view (Pure.pure a) (Pure.pure a) := fun _ => rfl

theorem bind {m n} {f : α → StateM σ β} {g : α → StateM τ β} (first : Projects view m n)
    (next : ∀ a, Projects view (f a) (g a)) : Projects view (m >>= f) (n >>= g) := by
  intro d
  rw [run_bind_of (first d)]
  exact next _ _

theorem mapM {f : α → StateM σ β} {g : α → StateM τ β} (each : ∀ a, Projects view (f a) (g a)) (as : List α) :
    Projects view (as.mapM f) (as.mapM g) := by
  induction as with
  | nil => exact .pure []
  | cons a as ih =>
    rw [List.mapM_cons, List.mapM_cons]
    exact (each a).bind fun b => ih.bind fun bs => .pure _

end Projects

namespace Files.FileSystem

/-- One file system is the other as far as `view` shows it. -/
structure Projected (view : σ → τ) (fs : FileSystem (StateM σ)) (gs : FileSystem (StateM τ)) : Prop where
  kind? : ∀ path, Projects view (fs.kind? path) (gs.kind? path)
  names : ∀ path, Projects view (fs.names path) (gs.names path)
  readText : ∀ path, Projects view (fs.readText path) (gs.readText path)
  makeDirectory : ∀ path, Projects view (fs.makeDirectory path) (gs.makeDirectory path)
  writeText : ∀ path text, Projects view (fs.writeText path text) (gs.writeText path text)

namespace Projected

variable {fs : FileSystem (StateM σ)} {gs : FileSystem (StateM τ)} (same : Projected view fs gs)

include same

theorem filesUnder (depth : Nat) (root : Path) :
    Projects view (fs.filesUnder depth root) (gs.filesUnder depth root) := by
  induction depth generalizing root with
  | zero => exact .pure []
  | succ depth ih =>
    unfold FileSystem.filesUnder
    refine (same.names root).bind fun names => .bind (.mapM (fun name => ?_) names) fun found => .pure _
    split
    · exact .pure []
    · refine (same.kind? _).bind fun kind => ?_
      split
      · exact .pure _
      · exact ih _
      · exact .pure _

theorem orPresent (path : Path) (made : Except FileError Unit) :
    Projects view (fs.orPresent path made) (gs.orPresent path made) := by
  unfold FileSystem.orPresent
  split
  · exact .pure _
  · refine (same.kind? path).bind fun kind => ?_
    split <;> exact .pure _

theorem makeDirectoriesUp (parts : List String) :
    Projects view (fs.makeDirectoriesUp parts) (gs.makeDirectoriesUp parts) := by
  induction parts with
  | nil => exact .pure _
  | cons part above ih =>
    unfold FileSystem.makeDirectoriesUp
    refine (same.makeDirectory _).bind fun made => ?_
    split
    · refine ih.bind fun climbed => ?_
      split
      · exact (same.makeDirectory _).bind fun again => same.orPresent _ again
      · exact .pure _
    · exact same.orPresent _ made

theorem writeFile (path : Path) (text : String) : Projects view (fs.writeFile path text) (gs.writeFile path text) := by
  unfold FileSystem.writeFile
  refine (same.makeDirectoriesUp _).bind fun made => ?_
  split
  · exact same.writeText path text
  · exact .pure _

end Projected

end Files.FileSystem

end

end ComponentCompiler
