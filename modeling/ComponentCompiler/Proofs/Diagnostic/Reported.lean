import ComponentCompiler.Diagnostic.Log

/-!
# Reports

`Reported log report` says what a report of a log is, without a sorting algorithm.
-/

namespace ComponentCompiler

def Diagnostic.rank (d : Diagnostic) : Nat × Nat × Nat :=
  match d.region with
  | .file _ => (0, 0, 0)
  | .span s => (1, s.start, s.stop)

def Diagnostic.UpTo (d e : Diagnostic) : Prop :=
  d.rank.1 < e.rank.1 ∨ d.rank.1 = e.rank.1 ∧
    (d.rank.2.1 < e.rank.2.1 ∨ d.rank.2.1 = e.rank.2.1 ∧ d.rank.2.2 ≤ e.rank.2.2)

structure Reported (log report : Log) : Prop where
  complete : report.Perm log
  ordered : report.Pairwise Diagnostic.UpTo
  stable : ∀ place, report.filter (·.rank = place) = log.filter (·.rank = place)

namespace Diagnostic

theorem upTo_of_rank_eq {d e : Diagnostic} (same : d.rank = e.rank) : d.UpTo e := by
  simp [UpTo, same]

theorem rank_eq_of_upTo {d e : Diagnostic} (h : d.UpTo e) (h' : e.UpTo d) : d.rank = e.rank := by
  unfold UpTo at h h'
  refine Prod.ext ?_ (Prod.ext ?_ ?_)
  all_goals omega

theorem le_iff (d e : Diagnostic) : d.le e = true ↔ d.UpTo e := by
  obtain ⟨_, _, region, _, _⟩ := d
  obtain ⟨_, _, region', _, _⟩ := e
  cases region <;> cases region' <;> simp [Diagnostic.le, Region.le, UpTo, rank, Span.before]
  omega

theorem le_trans (d e f : Diagnostic) (h : d.le e = true) (h' : e.le f = true) : d.le f = true := by
  rw [le_iff] at *
  unfold UpTo at *
  omega

theorem le_total (d e : Diagnostic) : (d.le e || e.le d) = true := by
  rw [Bool.or_eq_true, le_iff, le_iff]
  unfold UpTo
  omega

end Diagnostic

theorem sorted_stable (log : Log) (place : Nat × Nat × Nat) :
    log.sorted.filter (·.rank = place) = log.filter (·.rank = place) := by
  have tied : (log.filter (·.rank = place)).Pairwise fun d e => d.le e = true := by
    refine List.pairwise_of_forall_mem_list fun d here e there => ?_
    have here : d.rank = place := by simpa using (List.mem_filter.1 here).2
    have there : e.rank = place := by simpa using (List.mem_filter.1 there).2
    exact (d.le_iff e).2 (Diagnostic.upTo_of_rank_eq (here.trans there.symm))
  have kept : (log.filter (·.rank = place)).Sublist log.sorted :=
    List.sublist_mergeSort Diagnostic.le_trans Diagnostic.le_total tied List.filter_sublist
  have inside := kept.filter (·.rank = place)
  simp only [List.filter_filter, Bool.and_self] at inside
  exact (inside.eq_of_length (log.sorted_perm.filter _).length_eq.symm).symm

theorem sorted_reported (log : Log) : Reported log log.sorted where
  complete := log.sorted_perm
  ordered := (List.pairwise_mergeSort Diagnostic.le_trans Diagnostic.le_total log).imp fun {d e} h => (d.le_iff e).1 h
  stable := sorted_stable log

theorem upTo_of_stable {d e a b} (ordered : (d :: a).Pairwise Diagnostic.UpTo)
    (same : ∀ place, (d :: a).filter (·.rank = place) = (e :: b).filter (·.rank = place)) : d.UpTo e := by
  have there : e ∈ (e :: b).filter (·.rank = e.rank) := by simp
  rw [← same] at there
  rcases List.mem_cons.1 (List.mem_filter.1 there).1 with rfl | later
  · exact Diagnostic.upTo_of_rank_eq rfl
  · exact List.rel_of_pairwise_cons ordered later

theorem eq_of_stable {a b : Log} (ordered : a.Pairwise Diagnostic.UpTo) (ordered' : b.Pairwise Diagnostic.UpTo)
    (same : ∀ place, a.filter (·.rank = place) = b.filter (·.rank = place)) : a = b := by
  induction a generalizing b with
  | nil =>
    cases b with
    | nil => rfl
    | cons e b => simpa using same e.rank
  | cons d a ih =>
    cases b with
    | nil => simpa using same d.rank
    | cons e b =>
      have ranks : d.rank = e.rank :=
        Diagnostic.rank_eq_of_upTo (upTo_of_stable ordered same)
          (upTo_of_stable ordered' fun place => (same place).symm)
      have first := same d.rank
      simp only [ranks, List.filter_cons, decide_true, if_true, List.cons.injEq] at first
      obtain ⟨rfl, -⟩ := first
      refine congrArg (d :: ·) (ih ordered.tail ordered'.tail fun place => ?_)
      have rest := same place
      by_cases here : d.rank = place
      · simpa [List.filter_cons, here] using rest
      · simpa [List.filter_cons, here] using rest

theorem reported_iff {log report} : Reported log report ↔ report = log.sorted := by
  constructor
  · intro h
    have sorted := sorted_reported log
    exact eq_of_stable h.ordered sorted.ordered fun place => (h.stable place).trans (sorted.stable place).symm
  · rintro rfl
    exact sorted_reported log

end ComponentCompiler
