import ComponentCompiler.Proofs.Program.Courses
import ComponentCompiler.Proofs.Program.Distinct

/-!
# Content that is replaced stays alone

On no course of a program does anything else happen to content that is replaced.
-/

namespace ComponentCompiler.Program

open Template Course

/-! ### What statements at a place do to nodes -/

def Place.Holds (place : Place) (t : Temp) : Prop := place.real = .temp t ∨ place.node = .temp t

/-- A place for statements that create the constants in `W`: its own nodes come from outside. -/
structure Place.Apart (W : Temp → Prop) (place : Place) : Prop where
  outside : ∀ t, place.Holds t → ¬ W t
  named : place.lone = true → ∃ t, place.real = .temp t

/-- Nothing is done to replaced content, unless the template bound it before. -/
def Undisturbed (life : List Operation) : Prop :=
  .replace ∈ life → ∃ bindings, life = bindings ++ [.replace] ∧ ∀ operation ∈ bindings, operation = .bound

/-- Content is only added, or put in place of all other content where there is no other. -/
def Fitting (lone : Bool) (operations : List Operation) : Prop :=
  (∀ operation ∈ operations, operation = .add) ∨ (lone = true ∧ operations = [.replace])

structure Contained (W : Temp → Prop) (place : Place) (events : List Event) : Prop where
  fresh : ∀ t, .create t ∈ events → W t
  named : ∀ node, .operate node .replace ∈ events → ∃ t, node = .temp t
  inner : ∀ t, ¬ place.Holds t → prior t events = [] ∧ ∀ life ∈ lives t events, Undisturbed life
  outer : ∀ t, place.Holds t → Fitting place.lone (prior t events)

section

variable {V W : Temp → Prop} {place inner : Place} {node : Node} {t u : Temp} {first second events inside : List Event}

theorem Place.Apart.mono (h : place.Apart W) (sub : ∀ t, V t → W t) : place.Apart V :=
  ⟨fun t holds own => h.outside t holds (sub t own), h.named⟩

theorem scope_holds : ¬ Place.scope.Holds t := by simp [Place.Holds, Place.scope]

theorem scope_apart : Place.scope.Apart W := ⟨fun _ holds => absurd holds scope_holds, nofun⟩

theorem Place.Apart.notLone (h : place.Apart W) : place.notLone.Apart W := ⟨h.outside, nofun⟩

theorem Fitting.nil {lone} : Fitting lone [] := .inl nofun

theorem Contained.nil : Contained W place [] :=
  ⟨nofun, nofun, fun _ _ => ⟨rfl, nofun⟩, fun _ _ => .nil⟩

theorem Contained.mono (h : Contained V place events) (sub : ∀ t, V t → W t) : Contained W place events :=
  ⟨fun t created => sub t (h.fresh t created), h.named, h.inner, h.outer⟩

theorem Contained.of_notLone (h : Contained W place.notLone events) : Contained W place events := by
  refine ⟨h.fresh, h.named, h.inner, fun t holds => ?_⟩
  rcases h.outer t holds with added | ⟨lone, -⟩
  · exact .inl added
  · cases lone

theorem Contained.append (before : Contained W place first) (after : Contained W place second) (apart : place.Apart W)
    (alone : place.lone = true → ∀ t, place.Holds t → prior t first = [] ∨ prior t second = []) :
    Contained W place (first ++ second) := by
  refine ⟨fun t created => ?_, fun node operated => ?_, fun t free => ?_, fun t holds => ?_⟩
  · exact (List.mem_append.1 created).elim (before.fresh t) (after.fresh t)
  · exact (List.mem_append.1 operated).elim (before.named node) (after.named node)
  · obtain ⟨untouched, sound⟩ := before.inner t free
    obtain ⟨untouched', sound'⟩ := after.inner t free
    rw [prior_append_of_prior_eq_nil untouched', lives_append untouched']
    exact ⟨untouched, fun life mem => (List.mem_append.1 mem).elim (sound life) (sound' life)⟩
  · have uncreated : .create t ∉ first := fun created => apart.outside t holds (before.fresh t created)
    rw [prior_append uncreated]
    rcases before.outer t holds with added | ⟨lone, replaced⟩
    · rcases after.outer t holds with added' | ⟨lone, replaced⟩
      · exact .inl fun operation mem => (List.mem_append.1 mem).elim (added operation) (added' operation)
      · rcases alone lone t holds with nothing | nothing
        · exact .inr ⟨lone, by rw [nothing, replaced, List.nil_append]⟩
        · rw [nothing] at replaced
          cases replaced
    · rcases alone lone t holds with nothing | nothing
      · rw [nothing] at replaced
        cases replaced
      · exact .inr ⟨lone, by rw [nothing, replaced, List.append_nil]⟩

theorem Contained.prior_scope (h : Contained W .scope events) (t : Temp) : prior t events = [] :=
  (h.inner t scope_holds).1

theorem Contained.elsewhere (h : Contained W .scope events) : Contained W place events := by
  refine ⟨h.fresh, h.named, fun t _ => h.inner t scope_holds, fun t _ => ?_⟩
  rw [h.prior_scope]
  exact .nil

theorem Contained.add (into : node = place.real ∨ node = place.node) : Contained W place [.operate node .add] := by
  refine ⟨by simp, by simp, fun t free => ?_, fun t _ => .inl ?_⟩
  · have other : node ≠ .temp t := by
      rintro rfl
      exact free (into.imp Eq.symm Eq.symm)
    simp [prior, lives, other]
  · by_cases own : node = .temp t <;> simp [prior, own]

theorem Contained.replace (lone : place.lone = true) (apart : place.Apart W) :
    Contained W place [.operate place.real .replace] := by
  obtain ⟨own, named⟩ := apart.named lone
  refine ⟨by simp, fun node mem => ?_, fun t free => ?_, fun t _ => ?_⟩
  · simp only [List.mem_singleton, Event.operate.injEq, and_true] at mem
    exact ⟨own, mem.trans named⟩
  · have other : place.real ≠ .temp t := fun same => free (.inl same)
    simp [prior, lives, other]
  · by_cases same : place.real = .temp t
    · exact .inr ⟨lone, by simp [prior, same]⟩
    · simpa [prior, same] using Fitting.nil

theorem Contained.regionEvent (apart : place.Apart W) : Contained W place [regionEvent place] := by
  unfold Program.regionEvent
  split
  · rename_i lone
    exact .replace lone apart
  · exact .add (.inl rfl)

theorem Contained.calls {event} (call : Contained W place [event]) (h : Contained W .scope inside)
    (apart : place.Apart W) : Contained W place (event :: inside) :=
  call.append h.elsewhere apart fun _ t _ => .inr (h.prior_scope t)

theorem Fitting.undisturbed {lone bindings operations} (h : Fitting lone operations)
    (bound : ∀ operation ∈ bindings, operation = .bound) : Undisturbed (bindings ++ operations) := by
  intro mem
  rcases h with added | ⟨-, rfl⟩
  · rcases List.mem_append.1 mem with mem | mem
    · cases bound _ mem
    · cases added _ mem
  · exact ⟨bindings, rfl, bound⟩

section

variable {settings rest : List Event}

theorem settings_uncreated (bound : ∀ event ∈ settings, event = .operate (.temp t) .bound) (u : Temp) :
    .create u ∉ settings := by
  intro mem
  cases bound _ mem

theorem skip_created (bound : ∀ event ∈ settings, event = .operate (.temp t) .bound) (different : t ≠ u) :
    prior u (.create t :: (settings ++ rest)) = prior u rest ∧
      lives u (.create t :: (settings ++ rest)) = lives u rest := by
  rw [prior, if_neg different, lives, if_neg different]
  induction settings with
  | nil => exact ⟨rfl, rfl⟩
  | cons event settings ih =>
    obtain ⟨own, others⟩ := List.forall_mem_cons.1 bound
    have other : Node.temp t ≠ .temp u := fun same => different (Node.temp.inj same)
    rw [own, List.cons_append, prior, if_neg other, lives]
    exact ih others

theorem lives_created (bound : ∀ event ∈ settings, event = .operate (.temp t) .bound) (uncreated : .create t ∉ rest) :
    lives t (.create t :: (settings ++ rest)) = [prior t settings ++ prior t rest] ∧
      ∀ operation ∈ prior t settings, operation = .bound := by
  have absent : .create t ∉ settings ++ rest := by simp [settings_uncreated bound t, uncreated]
  refine ⟨?_, ?_⟩
  · rw [lives, if_pos rfl, lives_eq_nil absent, prior_append (settings_uncreated bound t)]
  · induction settings with
    | nil => simp [prior]
    | cons event settings ih =>
      obtain ⟨own, others⟩ := List.forall_mem_cons.1 bound
      have later : .create t ∉ settings ++ rest := fun mem => absent (List.mem_cons_of_mem event mem)
      rw [own, prior, if_pos rfl]
      exact List.forall_mem_cons.2 ⟨rfl, ih others later⟩

end

theorem Contained.created {settings} (h : Contained V inner inside) (apart : place.Apart W) (own : W t)
    (sub : ∀ u, V u → W u) (new : ¬ V t) (holds : inner.Holds t)
    (shared : ∀ u, inner.Holds u → u = t ∨ (place.Holds u ∧ inner.lone = false))
    (bound : ∀ event ∈ settings, event = .operate (.temp t) .bound) (into : node = place.real ∨ node = place.node) :
    Contained W place (.create t :: (settings ++ (inside ++ [.operate node .add]))) := by
  have put (u : Temp) (free : ¬ place.Holds u) : prior u [.operate node .add] = [] := by
    have other : node ≠ .temp u := fun same => free (into.imp (·.symm.trans same) (·.symm.trans same))
    simp [prior, other]
  refine ⟨fun u created => ?_, fun target operated => ?_, fun u free => ?_, fun u held => ?_⟩
  · rcases List.mem_cons.1 created with same | later
    · cases same
      exact own
    · have created : .create u ∈ inside := by simpa [settings_uncreated bound u] using later
      exact sub u (h.fresh u created)
  · have unset : .operate target .replace ∉ settings := fun mem => by cases bound _ mem
    have operated : .operate target .replace ∈ inside := by simpa [unset] using operated
    exact h.named target operated
  · by_cases same : t = u
    · subst same
      have uncreated : .create t ∉ inside ++ [.operate node .add] := by
        simpa using fun created => new (h.fresh t created)
      obtain ⟨life, early⟩ := lives_created bound uncreated
      rw [life, prior_append_of_prior_eq_nil (put t free)]
      refine ⟨by simp [prior], List.forall_mem_singleton.2 ?_⟩
      exact (h.outer t holds).undisturbed early
    · have outside : ¬ inner.Holds u :=
        fun within => (shared u within).elim (fun eq => same eq.symm) fun held => free held.1
      obtain ⟨before, after⟩ := @skip_created t u settings (inside ++ [.operate node .add]) bound same
      rw [before, after, prior_append_of_prior_eq_nil (put u free), lives_append (put u free)]
      simpa [lives] using h.inner u outside
  · have different : t ≠ u := by
      rintro rfl
      exact apart.outside t held own
    have uncreated : .create u ∉ inside := fun created => apart.outside u held (sub u (h.fresh u created))
    have added : ∀ operation ∈ prior u inside, operation = .add := by
      by_cases within : inner.Holds u
      · obtain ⟨-, several⟩ := (shared u within).resolve_left different.symm
        exact (h.outer u within).resolve_right fun alone => by simp [several] at alone
      · simp [(h.inner u within).1]
    rw [(skip_created bound different).1, prior_append uncreated]
    refine .inl (List.forall_mem_append.2 ⟨added, fun operation mem => ?_⟩)
    by_cases same : node = .temp u <;> simp_all [prior]

end

/-! ### Constructs -/

/-- Every course runs to its end, with events that have the property. -/
def Course.Yields (c : Course) (P : List Event → Prop) : Prop :=
  ∀ events broken, c events broken → broken = false ∧ P events

abbrev Kept (W : Temp → Prop) (place : Place) (c : Course) : Prop := c.Yields (Contained W place)

/-- Courses of a clause at a place: where it is to be alone, no other clause adds to what it does. -/
def KeptClause (W : Temp → Prop) (place : Place) (c : Course) : Prop :=
  ∀ events broken, c events broken → Contained W place events ∧ (place.lone = true → broken = true ∨ events = [])

section

variable {P Q : List Event → Prop} {c : Course} {s : Stmt} {first second body : List Stmt} {action : Action}
  {V W : Temp → Prop} {place : Place}

theorem Course.Yields.mono (h : c.Yields P) (sub : ∀ events, P events → Q events) : c.Yields Q :=
  fun events broken ran =>
  (h events broken ran).imp_right (sub events)

theorem yields_nil : (course []).Yields (· = []) := fun _ _ ran => ⟨ran.2, ran.1⟩

theorem yields_one (h : s.course.Yields P) : (course [s]).Yields P := by
  intro events broken ran
  rcases ran with ⟨stopped, rfl⟩ | ⟨before, after, ran, ⟨rfl, rfl⟩, rfl⟩
  · exact h events true stopped
  · rw [List.append_nil]
    exact ⟨rfl, (h before false ran).2⟩

theorem yields_act (action : Action) (goes : action ≠ .break) : (course [.act action]).Yields (· = action.events) :=
  yields_one fun _ _ ran => ⟨by simpa [goes] using ran.2, ran.1⟩

theorem yields_effect (action : Action) : (course [.effect action]).Yields (· = action.events) :=
  yields_one fun _ _ ran => ran.symm

theorem yields_following (liveness : Liveness) (action : Action) (goes : action ≠ .break) :
    (course [following liveness action]).Yields (· = action.events) := by
  unfold following
  split
  · exact yields_effect action
  · exact yields_act action goes

theorem yields_quiet {p : Event → Prop} (action : Action) (goes : action ≠ .break) (quiet : action.events = []) :
    (course [.act action]).Yields fun events => ∀ event ∈ events, p event := by
  refine (yields_act action goes).mono ?_
  rintro _ rfl
  rw [quiet]
  nofun

theorem yields_binding (e : Temp) (b : Binding) : (course [following b.value.liveness (.bind e b.name b.value)]).Yields
    fun events => ∀ event ∈ events, event = .operate (.temp e) .bound := by
  refine (yields_following _ (.bind e b.name b.value) nofun).mono ?_
  rintro _ rfl event mem
  simp only [Action.events] at mem
  split at mem
  · exact List.mem_singleton.1 mem
  · cases mem

theorem Course.Yields.append (before : (course first).Yields P) (after : (course second).Yields Q) :
    (course (first ++ second)).Yields fun events => ∃ a b, P a ∧ Q b ∧ events = a ++ b := by
  intro events broken ran
  rcases course_append ran with ⟨stopped, rfl⟩ | ⟨a, b, started, later, rfl⟩
  · exact absurd (before events true stopped).1 nofun
  · obtain ⟨ends, holds⟩ := after b broken later
    exact ⟨ends, a, b, (before a false started).2, holds, rfl⟩

theorem yields_map {α : Type} {f : α → Stmt} {p : Event → Prop}
    (h : ∀ x, (course [f x]).Yields fun events => ∀ event ∈ events, p event) (xs : List α) :
    (course (xs.map f)).Yields fun events => ∀ event ∈ events, p event := by
  induction xs with
  | nil =>
    refine yields_nil.mono ?_
    rintro _ rfl
    nofun
  | cons x xs ih =>
    refine ((h x).append ih).mono ?_
    rintro _ ⟨a, b, first, rest, rfl⟩ event mem
    exact (List.mem_append.1 mem).elim (first event) (rest event)

theorem Kept.nil : Kept W place (course []) := yields_nil.mono fun _ same => same ▸ .nil

theorem Kept.mono (h : Kept V place c) (sub : ∀ t, V t → W t) : Kept W place c :=
  Course.Yields.mono h fun _ contained => contained.mono sub

theorem Kept.of_notLone (h : Kept W place.notLone c) : Kept W place c :=
  Course.Yields.mono h fun _ => Contained.of_notLone

theorem Kept.append (before : Kept W place (course first)) (after : Kept W place (course second))
    (apart : place.Apart W)
    (alone : place.lone = true → first = [] ∨ second = []) : Kept W place (course (first ++ second)) := by
  by_cases lone : place.lone = true
  · rcases alone lone with rfl | rfl
    · exact after
    · rw [List.append_nil]
      exact before
  · refine (Course.Yields.append before after).mono ?_
    rintro _ ⟨a, b, holds, holds', rfl⟩
    exact holds.append holds' apart fun only => absurd only lone

theorem calls_contained {functions events} (each : ∀ c ∈ functions, Kept W .scope c) (h : Calls functions events) :
    Contained W .scope events := by
  induction h with
  | done => exact .nil
  | next mem call _ ih => exact (each _ mem _ _ call).2.append ih scope_apart nofun

theorem Kept.region (h : Kept W .scope (course body)) (apart : place.Apart W) :
    Kept W place (course [.region place body]) := by
  refine yields_one fun events broken ran => ?_
  obtain ⟨inside, calls, rfl, ends⟩ := ran
  exact ⟨ends, .calls (.regionEvent apart) (calls_contained (by simpa using h) calls) apart⟩

theorem Kept.fallbackSlot {name} (h : Kept W .scope (course body)) (apart : place.Apart W) :
    Kept W place (course [.fallbackSlot name place body]) := by
  refine yields_one fun events broken ran => ?_
  obtain ⟨inside, calls, rfl, ends⟩ := ran
  exact ⟨ends, .calls (.add (.inl rfl)) (calls_contained (by simpa using h) calls) apart⟩

theorem Kept.component {inclusion fillings} (h : ∀ c ∈ fillingCourses fillings, Kept W .scope c)
    (apart : place.Apart W) : Kept W place (course [.component inclusion place fillings]) := by
  refine yields_one fun events broken ran => ?_
  obtain ⟨inside, calls, rfl, ends⟩ := ran
  exact ⟨ends, .calls (.add (.inl rfl)) (calls_contained h calls) apart⟩

theorem Kept.template {name params} (h : Kept W .scope (course body)) :
    Kept W .scope (course [.template name params body]) :=
  yields_one fun _ _ ran => ⟨ran.2, calls_contained (by simpa using h) ran.1⟩

theorem Kept.conditional {condition elseIfs otherwise} (h : Kept W place (course body))
    (others : ∀ c ∈ branchCourses elseIfs, Kept W place c)
    (final : ∀ c ∈ otherwiseCourses otherwise, Kept W place c) :
    Kept W place (course [.conditional condition body elseIfs otherwise]) := by
  refine yields_one fun events broken ran => ?_
  rcases ran with ⟨branch, mem, ran⟩ | ⟨-, rfl, ends⟩
  · simp only [List.mem_cons, List.mem_append] at mem
    rcases mem with rfl | mem | mem
    · exact h events broken ran
    · exact others branch mem events broken ran
    · exact final branch mem events broken ran
  · exact ⟨ends, .nil⟩

theorem Kept.loop {loop} (h : Kept W place.notLone (course body)) (apart : place.Apart W) :
    Kept W place (course [.loop loop body]) := by
  refine yields_one fun events broken ran => ⟨ran.2, .of_notLone ?_⟩
  obtain ⟨rounds, -⟩ := ran
  induction rounds with
  | done => exact .nil
  | next round _ ih => exact (h _ _ round).2.append ih apart.notLone nofun
  | broken round => exact absurd (h _ _ round).1 nofun

theorem falls_contained {clauses events} (each : ∀ c ∈ clauses, KeptClause W place c) (apart : place.Apart W)
    (h : Falls clauses events) : Contained W place events := by
  induction h with
  | done => exact .nil
  | through run _ ih =>
    obtain ⟨here, others⟩ := List.forall_mem_cons.1 each
    obtain ⟨contained, alone⟩ := here _ _ run
    refine contained.append (ih others) apart fun lone t _ => .inl ?_
    rcases alone lone with ends | nothing
    · cases ends
    · rw [nothing]
      rfl
  | broken run => exact ((List.forall_mem_cons.1 each).1 _ _ run).1

theorem Kept.switch {m value clauses} (h : ∀ c ∈ clauseCourses clauses, KeptClause W place c)
    (apart : place.Apart W) : Kept W place (course (switchStatements m value clauses)) := by
  have switched : Kept W place (course [.switch m clauses]) := by
    refine yields_one fun events broken ran => ?_
    obtain ⟨⟨skipped, entered, split, falls⟩, ends⟩ := ran
    refine ⟨ends, falls_contained (fun c mem => h c ?_) apart falls⟩
    rw [split]
    exact List.mem_append_right skipped mem
  have declared := yields_act (.declareSubject m value) nofun
  refine (declared.append switched).mono ?_
  rintro _ ⟨_, b, rfl, holds, rfl⟩
  exact holds

theorem Kept.clause (h : Kept W place (course body)) : KeptClause W place (course (body ++ [.act .break])) := by
  intro events broken ran
  rcases course_append ran with ⟨stopped, rfl⟩ | ⟨a, b, started, last, rfl⟩
  · exact absurd (h events true stopped).1 nofun
  · have ends : b = [] ∧ broken = true := by
      rcases last with ⟨⟨rfl, -⟩, rfl⟩ | ⟨_, _, ⟨-, goes⟩, -⟩
      · exact ⟨rfl, rfl⟩
      · cases goes
    rw [ends.1, List.append_nil]
    exact ⟨(h a false started).2, fun _ => .inl ends.2⟩

theorem keptClause_exhaustive {m} : ∀ c ∈ clauseCourses [exhaustiveClause m], KeptClause W place c := by
  intro c mem events broken ran
  cases List.mem_singleton.1 mem
  obtain ⟨-, rfl⟩ := yields_act (.exhaustive m) nofun events broken ran
  exact ⟨.nil, fun _ => .inr rfl⟩

end

/-! ### Elements, texts and lists -/

def OfBody (path : Path) (t : Temp) : Prop := t = ⟨.fragment, path⟩ ∨ Among path (fun _ => True) t

theorem OfBody.under {path t} (h : OfBody path t) : path <+: t.path := by
  rcases h with rfl | h
  · exact List.prefix_refl _
  · exact h.under

theorem Among.of_prefix {path i t} (h : path ++ [i] <+: t.path) : Among path (fun _ => True) t :=
  ⟨i, trivial, h⟩

section

variable {e : Temp} {tag : Tag} {place inner : Place} {path : Path} {s : List Stmt} {W : Temp → Prop}

theorem yields_opening : (course (openingStatements e tag)).Yields fun events =>
    ∃ settings, events = .create e :: settings ∧ ∀ event ∈ settings, event = .operate (.temp e) .bound := by
  have ids := yields_map (p := (· = .operate (.temp e) .bound)) (fun id => yields_quiet (.setId e id) nofun rfl)
    tag.id.toList
  have listeners := yields_map (p := (· = .operate (.temp e) .bound)) (fun l => yields_quiet (.listen e l) nofun rfl)
    tag.listeners
  have bindings := yields_map (p := (· = .operate (.temp e) .bound)) (fun b => yields_binding e b) tag.bindings
  have created := yields_act (.createElement e tag.name tag.classes) nofun
  refine (((created.append ids).append bindings).append listeners).mono ?_
  rintro _ ⟨_, c, ⟨_, b, ⟨_, a, rfl, onlyIds, rfl⟩, onlyBindings, rfl⟩, onlyListeners, rfl⟩
  refine ⟨a ++ b ++ c, by simp [Action.events], fun event mem => ?_⟩
  simp only [List.mem_append] at mem
  rcases mem with (mem | mem) | mem
  · exact onlyIds event mem
  · exact onlyBindings event mem
  · exact onlyListeners event mem

theorem yields_sync (kind : SyncKind) (signal : Code) : (course (syncStatements e kind signal)).Yields (· = []) := by
  have pair {s s' : Stmt} (first : (course [s]).Yields (· = [])) (second : (course [s']).Yields (· = [])) :
      (course [s, s']).Yields (· = []) := by
    refine (first.append second).mono ?_
    rintro _ ⟨_, _, rfl, rfl, rfl⟩
    rfl
  match kind with
  | .text | .checkbox | .select false => exact yields_act _ nofun
  | .radio => exact pair (yields_effect _) (yields_act _ nofun)
  | .select true => exact pair (yields_one fun _ _ ran => ran.symm) (yields_act _ nofun)

theorem yields_closing {sync} (quiet : (course sync).Yields (· = [])) :
    (course (closingStatements e tag sync place)).Yields (· = [.operate place.node .add]) := by
  have receivers := yields_map (p := fun _ => False) (fun r : Receiver => yields_quiet (.receive e r.code) nofun rfl)
    tag.receivers
  have put := yields_act (.append place.node e) nofun
  refine ((quiet.append receivers).append put).mono ?_
  rintro _ ⟨_, _, ⟨_, b, rfl, nothing, rfl⟩, rfl, rfl⟩
  rw [List.eq_nil_iff_forall_not_mem.2 nothing]
  rfl

theorem element_kept {sync} (quiet : (course sync).Yields (· = []))
    (h : Kept (OfBody path) (.element ⟨.element, path⟩) (course s)) (apart : place.Apart (path <+: ·.path)) :
    Kept (path <+: ·.path) place (course (elementStatements ⟨.element, path⟩ tag sync place s)) := by
  refine ((yields_opening.append h).append (yields_closing quiet)).mono ?_
  rintro _ ⟨_, _, ⟨_, inside, ⟨settings, rfl, bound⟩, contained, rfl⟩, rfl, rfl⟩
  have new : ¬ OfBody path ⟨.element, path⟩ := by simp [OfBody, Among.not_own]
  have only (u : Temp) (held : (Place.element ⟨.element, path⟩).Holds u) : u = ⟨.element, path⟩ := by
    rcases held with same | same <;> exact (Node.temp.inj same).symm
  have whole := contained.created apart (List.prefix_refl _) (fun _ => OfBody.under) new (.inl rfl)
    (fun u held => .inl (only u held)) bound (.inr rfl)
  simpa only [List.cons_append, List.append_assoc] using whole

theorem text_kept (items : List Fragment) (apart : place.Apart (path <+: ·.path)) :
    Kept (path <+: ·.path) place (course (textStatements path place items)) := by
  unfold textStatements
  dsimp only
  split
  · rename_i alone
    simp only [Bool.and_eq_true] at alone
    refine (yields_following _ (.setContent place.real items) nofun).mono ?_
    rintro _ rfl
    exact .replace alone.1 apart
  · split
    · have created := yields_act (.createText ⟨.text, path⟩) nofun
      have filled := yields_effect (.setData ⟨.text, path⟩ items)
      have put := yields_act (.append place.node ⟨.text, path⟩) nofun
      refine ((created.append filled).append put).mono ?_
      rintro _ ⟨_, _, ⟨_, _, rfl, rfl, rfl⟩, rfl, rfl⟩
      exact .add (.inr rfl)
    · refine (yields_act (.appendText place.node items) nofun).mono ?_
      rintro _ rfl
      exact .add (.inr rfl)

theorem gather_apart {count} (put : inner = gatherPlace place path count) (apart : place.Apart (OfBody path)) :
    inner.Apart (Among path fun _ => True) := by
  unfold gatherPlace at put
  subst put
  split
  · refine ⟨fun t held among => ?_, nofun⟩
    rcases held with real | fragment
    · exact apart.outside t (.inl real) (.inr among)
    · have own : t.path = path := congrArg Temp.path (Node.temp.inj fragment).symm
      exact Among.not_own own among
  · split
    · exact apart.mono fun _ => .inr
    · exact (apart.mono fun _ => .inr).notLone

theorem gather_lone {count} (put : inner = gatherPlace place path count) (lone : inner.lone = true) : count ≤ 1 := by
  unfold gatherPlace at put
  subst put
  split at lone
  · cases lone
  · split at lone
    · omega
    · cases lone

theorem gather_kept {count} (put : inner = gatherPlace place path count)
    (h : Kept (Among path fun _ => True) inner (course s)) (apart : place.Apart (OfBody path)) :
    Kept (OfBody path) place (course (gatherStatements place path count s)) := by
  unfold gatherPlace at put
  subst put
  unfold gatherStatements
  split at h
  · rename_i wide
    rw [if_pos wide]
    have created := yields_act (.createFragment ⟨.fragment, path⟩) nofun
    have put := yields_act (.append place.real ⟨.fragment, path⟩) nofun
    refine ((created.append h).append put).mono ?_
    rintro _ ⟨_, _, ⟨_, inside, rfl, contained, rfl⟩, rfl, rfl⟩
    have shared (u : Temp) (held : Place.Holds ⟨place.real, .temp ⟨.fragment, path⟩, false⟩ u) :
        u = ⟨.fragment, path⟩ ∨ (place.Holds u ∧ false = false) := by
      rcases held with real | fragment
      · exact .inr ⟨.inl real, rfl⟩
      · exact .inl (Node.temp.inj fragment).symm
    have whole :
        Contained (OfBody path) place (.create ⟨.fragment, path⟩ :: ([] ++ (inside ++ [.operate place.real .add]))) :=
      contained.created apart (.inl rfl) (fun _ => .inr) (Among.not_own rfl) (.inr rfl) shared nofun (.inl rfl)
    exact whole
  · rename_i narrow
    rw [if_neg narrow]
    split at h
    · exact h.mono fun _ => .inr
    · exact h.of_notLone.mono fun _ => .inr

theorem region_apart {reactive} (put : inner = regionPlace reactive place) (apart : place.Apart W) :
    inner.Apart W := by
  unfold regionPlace at put
  subst put
  split
  · exact scope_apart
  · exact apart

theorem region_kept {reactive} (put : inner = regionPlace reactive place) (h : Kept W inner (course s))
    (apart : place.Apart W) : Kept W place (course (regionStatements reactive place s)) := by
  subst put
  cases reactive with
  | false => exact h
  | true => exact Kept.region h apart

end

/-! ### Lowered entities -/

section

variable {slots : SlotTable}

theorem LowersFrom.eq_nil_of_hidden {place path i es s} (h : LowersFrom slots place path i es s)
    (hidden : renderedCount es = 0) : s = [] := by
  induction es generalizing i s with
  | nil =>
    cases h
    rfl
  | cons e es ih =>
    cases h with
    | cons head tail =>
      have none := List.countP_eq_zero.1 hidden
      have first : isRendered e = false := by simpa using none e List.mem_cons_self
      have rest : renderedCount es = 0 := List.countP_eq_zero.2 fun x mem => none x (List.mem_cons_of_mem e mem)
      rw [head.eq_nil_of_hidden first, ih tail rest]
      rfl

theorem case_kept {W : Temp → Prop} {place body falls hasDefault others} (h : Kept W place (course body))
    (alone : place.lone = true → falls = false) :
    KeptClause W place (course (body ++ caseEnd falls hasDefault others)) := by
  unfold caseEnd
  split
  · exact Kept.clause h
  · rename_i through
    rw [List.append_nil]
    refine fun events broken ran => ⟨(h events broken ran).2, fun lone => ?_⟩
    simp [alone lone] at through

theorem switchPlace_apart {W : Temp → Prop} {place} (cases : List SwitchCase) (apart : place.Apart W) :
    (switchPlace place cases).Apart W := by
  unfold switchPlace
  split
  · exact apart.notLone
  · exact apart

theorem switchPlace_lone {place cases} (lone : (switchPlace place cases).lone = true) :
    ∀ c ∈ cases, c.fallsThrough = false := by
  unfold switchPlace at lone
  split at lone
  · cases lone
  · rename_i none
    simpa using none

theorem switchPlace_kept {W : Temp → Prop} {place cases c} (h : Kept W (switchPlace place cases) c) :
    Kept W place c := by
  unfold switchPlace at h
  split at h
  · exact h.of_notLone
  · exact h

theorem Kept.below {place path i c} (h : place.Apart (OfBody (path ++ [i])) → Kept (OfBody (path ++ [i])) place c)
    (apart : place.Apart (path <+: ·.path)) : Kept (path <+: ·.path) place c := by
  have sub (t : Temp) (own : OfBody (path ++ [i]) t) : path <+: t.path := (List.prefix_append path [i]).trans own.under
  exact (h (apart.mono sub)).mono sub

theorem element_apart (path : Path) : (Place.element ⟨.element, path⟩).Apart (OfBody path) := by
  refine ⟨fun t held => ?_, fun _ => ⟨_, rfl⟩⟩
  have same : t = ⟨.element, path⟩ := by rcases held with same | same <;> exact (Node.temp.inj same).symm
  simp [same, OfBody, Among.not_own]

theorem lastClause_kept {W : Temp → Prop} {place m last} (h : ∀ c ∈ otherwiseCourses last, Kept W place c) :
    ∀ c ∈ clauseCourses [lastClause m last], KeptClause W place c := by
  cases last with
  | none => exact keptClause_exhaustive
  | some body =>
    intro c mem
    cases List.mem_singleton.1 mem
    exact Kept.clause (h _ List.mem_cons_self)

mutual

theorem Lowers.kept {place path e s} (h : Lowers slots place path e s)
    (apart : place.Apart (path <+: ·.path)) : Kept (path <+: ·.path) place (course s) := by
  match h with
  | .tag content => exact element_kept yields_nil (content.kept (element_apart path)) apart
  | .synced content => exact element_kept (yields_sync _ _) (content.kept (element_apart path)) apart
  | .text => exact text_kept _ apart
  | .component content => exact Kept.component content.kept apart
  | .conditional put content others final =>
    have inner := region_apart put apart
    have last c mem := Kept.below (fun within => final.kept within c mem) inner
    exact region_kept put (Kept.conditional (Kept.below content.kept inner) (others.kept inner) last) apart
  | .each put content =>
    have inner := region_apart put apart
    have body := (content.kept (inner.mono fun _ => OfBody.under).notLone).mono fun _ => OfBody.under
    exact region_kept put (Kept.loop body inner) apart
  | .choice put content final =>
    have inner := region_apart put apart
    have last c mem := Kept.below (fun within => final.kept within c mem) inner
    refine region_kept put (Kept.switch (fun c mem => ?_) inner) apart
    rw [clauseCourses_append] at mem
    rcases List.mem_append.1 mem with mem | mem
    · exact content.kept inner c mem
    · exact lastClause_kept last c mem
  | @Lowers.switch _ _ _ _ _ cases _ _ put sole content =>
    have inner := switchPlace_apart cases (region_apart put apart)
    refine region_kept put (switchPlace_kept (Kept.switch (fun c mem => ?_) inner)) apart
    rw [clauseCourses_append] at mem
    rcases List.mem_append.1 mem with mem | mem
    · exact content.kept inner switchPlace_lone c mem
    · split at mem
      · cases mem
      · exact keptClause_exhaustive c mem
  | .requiredSlot _ _ | .optionalSlot _ _ | .templateUse =>
    refine (yields_act _ (by nofun)).mono ?_
    rintro _ rfl
    exact .add (.inl rfl)
  | .fallbackSlot _ _ content => exact Kept.fallbackSlot ((content.kept scope_apart).mono fun _ => OfBody.under) apart
  | .template => exact Kept.nil

theorem LowersList.kept {place path es s} (h : LowersList slots place path es s) (apart : place.Apart (OfBody path)) :
    Kept (OfBody path) place (course s) := by
  match h with
  | .gathered put content =>
    exact gather_kept put (content.kept (gather_apart put apart) (gather_lone put)) apart

theorem LowersFrom.kept {place path i es s} (h : LowersFrom slots place path i es s)
    (apart : place.Apart (Among path fun _ => True))
    (alone : place.lone = true → renderedCount es ≤ 1) : Kept (Among path fun _ => True) place (course s) := by
  match h with
  | .nil => exact Kept.nil
  | @LowersFrom.cons _ _ _ _ e es first rest head tail =>
    have fewer : renderedCount es ≤ renderedCount (e :: es) := (List.sublist_cons_self e es).countP_le
    have here := (head.kept (apart.mono fun _ => Among.of_prefix)).mono fun _ => Among.of_prefix
    have later := tail.kept apart fun lone => Nat.le_trans fewer (alone lone)
    refine Kept.append here later apart fun lone => ?_
    cases shown : isRendered e with
    | false => exact .inl (head.eq_nil_of_hidden shown)
    | true =>
      have count : renderedCount (e :: es) = renderedCount es + 1 := List.countP_cons_of_pos shown
      have most := alone lone
      exact .inr (tail.eq_nil_of_hidden (by omega))

theorem LowersOptional.kept {place path body s} (h : LowersOptional slots place path body s)
    (apart : place.Apart (OfBody path)) :
    ∀ c ∈ otherwiseCourses s, Kept (OfBody path) place c := by
  match h with
  | .none => nofun
  | .some content =>
    intro c mem
    cases List.mem_singleton.1 mem
    exact content.kept apart

theorem LowersElseIfs.kept {place path i elseIfs branches} (h : LowersElseIfs slots place path i elseIfs branches)
    (apart : place.Apart (path <+: ·.path)) :
    ∀ c ∈ branchCourses branches, Kept (path <+: ·.path) place c := by
  match h with
  | .nil => nofun
  | .cons head tail => exact List.forall_mem_cons.2 ⟨Kept.below head.kept apart, tail.kept apart⟩

theorem LowersMatchCases.kept {place path i cases clauses} (h : LowersMatchCases slots place path i cases clauses)
    (apart : place.Apart (path <+: ·.path)) :
    ∀ c ∈ clauseCourses clauses, KeptClause (path <+: ·.path) place c := by
  match h with
  | .nil => nofun
  | .skip _ tail => exact tail.kept apart
  | .cons _ head tail => exact List.forall_mem_cons.2 ⟨Kept.clause (Kept.below head.kept apart), tail.kept apart⟩

theorem LowersSwitchCases.kept {place path i hasDefault cases clauses}
    (h : LowersSwitchCases slots place hasDefault path i cases clauses)
    (apart : place.Apart (path <+: ·.path)) (alone : place.lone = true → ∀ c ∈ cases, c.fallsThrough = false) :
    ∀ c ∈ clauseCourses clauses, KeptClause (path <+: ·.path) place c := by
  match h with
  | .nil => nofun
  | .cons head tail =>
    refine List.forall_mem_cons.2 ⟨case_kept (Kept.below head.kept apart) fun lone => ?_, ?_⟩
    · exact alone lone _ List.mem_cons_self
    · exact tail.kept apart fun lone c mem => alone lone c (List.mem_cons_of_mem _ mem)

theorem LowersInsertions.kept {path i insertions fillings} (h : LowersInsertions slots path i insertions fillings) :
    ∀ c ∈ fillingCourses fillings, Kept (path <+: ·.path) .scope c := by
  match h with
  | .nil => nofun
  | .cons head tail => exact List.forall_mem_cons.2 ⟨Kept.below head.kept scope_apart, tail.kept⟩

end

theorem LowersTemplates.kept {i es s} (h : LowersTemplates slots i es s) :
    Kept (fun _ => True) .scope (course s) := by
  induction h with
  | nil => exact Kept.nil
  | template head tail ih =>
    exact Kept.append (Kept.template ((head.kept scope_apart).mono fun _ _ => trivial)) ih scope_apart nofun
  | other shown tail ih => exact ih

theorem ofEntities_kept {es s} (h : ofEntities slots es = .ok s) : Kept (fun _ => True) .scope (course s) := by
  obtain ⟨templates, body, hoisted, shown, rfl⟩ := ofEntities_lowers h
  exact Kept.append hoisted.kept ((shown.kept scope_apart).mono fun _ _ => trivial) scope_apart nofun

end

/-! ### Generated components -/

/-- On every course of a generated program, only elements have their content replaced, every element is created before
anything is put into it, and whenever the content of an element is replaced, all that was done to it since it was
created is that the template bound it. -/
theorem replaced_content_alone {c : Component} {script : Option String} {additions : List Addition}
    {runtime code : String}
    (generated : generate c script additions runtime = .ok code) :
    ∃ statements, ofEntities c.slots c.entities = .ok statements ∧
      code = (({} : Text.Writer).run
        ((moduleSteps c script additions runtime (steps statements)).map (Text.Writer.Step.map Line.text))).code ∧
      ∀ events broken, course statements events broken →
        (∀ node, .operate node .replace ∈ events → ∃ e, node = .temp e) ∧
        ∀ e, prior e events = [] ∧ ∀ life ∈ lives e events, .replace ∈ life →
          ∃ bindings, life = bindings ++ [.replace] ∧ ∀ operation ∈ bindings, operation = .bound := by
  obtain ⟨statements, lowered, done⟩ := bind_ok generated
  refine ⟨statements, lowered, (Except.ok.inj done).symm, fun events broken ran => ?_⟩
  obtain ⟨-, contained⟩ := ofEntities_kept lowered events broken ran
  exact ⟨contained.named, fun e => contained.inner e scope_holds⟩

/-- Each branch replaces the content of the element, and no course takes both. -/
theorem replaced_content_alone_branches :
    let c : Component := { entities := [.tag { name := "p", span := ⟨0, 1⟩ }
      [.conditional ⟨⟨"x", true, ⟨2, 3⟩⟩, false⟩ [.text [.static "a"] ⟨4, 5⟩] []
        (some [.text [.static "b"] ⟨6, 7⟩]) ⟨2, 7⟩]] }
    ∃ code statements, generate c none [] "runtime" = .ok code ∧ ofEntities c.slots c.entities = .ok statements ∧
      (∃ events, course statements events false ∧ lives ⟨.element, [0]⟩ events = [[.replace]]) ∧
      ∀ events broken, course statements events broken → ∀ e, ∀ life ∈ lives e events, .replace ∈ life →
        ∃ bindings, life = bindings ++ [.replace] ∧ ∀ operation ∈ bindings, operation = .bound := by
  intro c
  obtain ⟨code, generated⟩ : ∃ code, generate c none [] "runtime" = .ok code := ⟨_, rfl⟩
  obtain ⟨statements, lowered, -, sound⟩ := replaced_content_alone generated
  refine ⟨code, statements, generated, lowered, ?_, fun events broken ran e => ((sound events broken ran).2 e).2⟩
  cases lowered
  refine ⟨[.create ⟨.element, [0]⟩, .operate (.temp ⟨.element, [0]⟩) .replace, .operate .parent .add], ?_, rfl⟩
  have chosen : (Stmt.conditional ⟨"x", true, ⟨2, 3⟩⟩ [.act (.setContent (.temp ⟨.element, [0]⟩) [.static "a"])] []
      (some [.act (.setContent (.temp ⟨.element, [0]⟩) [.static "b"])])).course
      [.operate (.temp ⟨.element, [0]⟩) .replace] false :=
    .inl ⟨_, List.mem_cons_self, .inr ⟨[.operate (.temp ⟨.element, [0]⟩) .replace], [], ⟨rfl, rfl⟩, ⟨rfl, rfl⟩, rfl⟩⟩
  exact .inr ⟨[.create ⟨.element, [0]⟩], _, ⟨rfl, rfl⟩,
    .inr ⟨_, [.operate .parent .add], chosen, .inr ⟨_, [], ⟨rfl, rfl⟩, ⟨rfl, rfl⟩, rfl⟩, rfl⟩, rfl⟩

/-- An element whose content the template binds gets its lone text in place of what was bound. -/
theorem bound_then_replaced :
    let c : Component := { entities := [
      .tag { name := "p", bindings := [⟨"textContent", .static "a", ⟨0, 1⟩⟩], span := ⟨0, 1⟩ }
        [.text [.static "b"] ⟨2, 3⟩]] }
    ∃ code statements events, generate c none [] "runtime" = .ok code ∧ ofEntities c.slots c.entities = .ok statements ∧
      course statements events false ∧ lives ⟨.element, [0]⟩ events = [[.bound, .replace]] := by
  intro c
  let e : Temp := ⟨.element, [0]⟩
  refine ⟨_, _, [.create e, .operate (.temp e) .bound, .operate (.temp e) .replace, .operate .parent .add],
    rfl, rfl, ?_, rfl⟩
  exact .inr ⟨[.create e], _, ⟨rfl, rfl⟩, .inr ⟨[.operate (.temp e) .bound], _, ⟨rfl, rfl⟩,
    .inr ⟨[.operate (.temp e) .replace], _, ⟨rfl, rfl⟩, .inr ⟨_, [], ⟨rfl, rfl⟩, ⟨rfl, rfl⟩, rfl⟩, rfl⟩, rfl⟩, rfl⟩

end ComponentCompiler.Program
