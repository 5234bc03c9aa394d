import ComponentCompiler.Files.Path
import Mathlib.Data.List.Lex
import Mathlib.Data.String.Basic
import Mathlib.Order.WithBot

/-!
# Parts of paths
-/

namespace ComponentCompiler.Files

section

variable {separator : Char}

theorem splitChars_append_separator (front back : List Char) :
    splitChars separator (front ++ separator :: back) = splitChars separator front ++ splitChars separator back := by
  induction front with
  | nil => simp [splitChars]
  | cons c front ih =>
    rw [List.cons_append, splitChars, splitChars, ih]
    split
    · rfl
    · cases runs : splitChars separator front with
      | nil => exact absurd runs (splitChars_ne_nil separator front)
      | cons run runs => rfl

theorem splitChars_of_not_mem {text} (clear : separator ∉ text) : splitChars separator text = [text] := by
  induction text with
  | nil => rfl
  | cons c text ih =>
    obtain ⟨other, clear⟩ := not_or.1 (mt List.mem_cons.2 clear)
    rw [splitChars, if_neg (Ne.symm other), ih clear]

theorem splitChars_last (separator : Char) (text : List Char) :
    ∃ init last, last <:+ text ∧ separator ∉ last ∧
      ∀ back, separator ∉ back → splitChars separator (text ++ back) = init ++ [last ++ back] := by
  by_cases mem : separator ∈ text
  · obtain ⟨behind, before, reversed, clear⟩ := List.eq_append_cons_of_mem (List.mem_reverse.2 mem)
    have split : text = before.reverse ++ separator :: behind.reverse := by
      rw [← text.reverse_reverse, reversed]
      simp
    have apart : separator ∉ behind.reverse := mt List.mem_reverse.1 clear
    refine ⟨splitChars separator before.reverse, behind.reverse, ?_, apart, fun back clear => ?_⟩
    · exact ⟨before.reverse ++ [separator], by simp [split]⟩
    · have one : splitChars separator (behind.reverse ++ back) = [behind.reverse ++ back] :=
        splitChars_of_not_mem (mt List.mem_append.1 (not_or.2 ⟨apart, clear⟩))
      rw [split, List.append_assoc, List.cons_append, splitChars_append_separator, one]
  · refine ⟨[], text, List.suffix_refl _, mem, fun back clear => splitChars_of_not_mem ?_⟩
    exact mt List.mem_append.1 (not_or.2 ⟨mem, clear⟩)

theorem not_mem_of_mem_splitChars {text run} (mem : run ∈ splitChars separator text) : separator ∉ run := by
  induction text generalizing run with
  | nil => simp_all [splitChars]
  | cons c text ih =>
    rw [splitChars] at mem
    split at mem
    · rcases List.mem_cons.1 mem with rfl | mem
      · simp
      · exact ih mem
    · rename_i other
      cases runs : splitChars separator text with
      | nil => exact absurd runs (splitChars_ne_nil separator text)
      | cons first rest =>
        simp only [runs] at mem ih
        rcases List.mem_cons.1 mem with rfl | mem
        · exact mt List.mem_cons.1 (not_or.2 ⟨Ne.symm other, ih (by simp)⟩)
        · exact ih (List.mem_cons_of_mem _ mem)

end

namespace Path

theorem not_mem_segment {p : Path} {s : String} (mem : s ∈ p.segments) : '/' ∉ s.toList := by
  obtain ⟨run, here, rfl⟩ := List.mem_map.1 mem
  rw [String.toList_ofList]
  exact not_mem_of_mem_splitChars here

theorem not_idle_of_mem_parts {p : Path} {s} (mem : s ∈ p.parts) : isIdle s = false := by
  simpa using (List.mem_filter.1 mem).2

theorem not_mem_part {p : Path} {s : String} (mem : s ∈ p.parts) : '/' ∉ s.toList :=
  not_mem_segment (List.mem_filter.1 mem).1

theorem parts_part {p : Path} {s} (mem : s ∈ p.parts) : (Path.mk s).parts = [s] ∧ (Path.mk s).isAbsolute = false := by
  have clear := not_mem_part mem
  have solid := not_idle_of_mem_parts mem
  refine ⟨by simp [parts, segments, splitChars_of_not_mem clear, solid], ?_⟩
  refine decide_eq_false fun slash => clear ?_
  exact List.mem_of_mem_head? slash

theorem parts_join {base p : Path} (relative : p.isAbsolute = false) : (base.join p).parts = base.parts ++ p.parts := by
  have split (front : List Char) :
      ((splitChars '/' (front ++ '/' :: p.text.toList)).map String.ofList).filter (fun s => !isIdle s) =
        ((splitChars '/' front).map String.ofList).filter (fun s => !isIdle s) ++ p.parts := by
    rw [splitChars_append_separator, List.map_append, List.filter_append]
    rfl
  unfold join
  rw [if_neg (by simp [relative])]
  split
  · rename_i slash
    obtain ⟨front, spelled⟩ := List.getLast?_eq_some_iff.1 slash
    have idle : base.parts = ((splitChars '/' front).map String.ofList).filter (fun s => !isIdle s) := by
      have empty : splitChars '/' base.text.toList = splitChars '/' front ++ [[]] := by
        rw [spelled, splitChars_append_separator]
        rfl
      simp [parts, segments, empty, isIdle]
    rw [idle, ← split]
    simp [parts, segments, spelled]
  · rw [parts, segments, parts, segments, ← split]
    simp

theorem segments_ofSegments {list} (some : list ≠ []) (clear : ∀ s ∈ list, '/' ∉ s.toList) :
    (ofSegments list).segments = list := by
  induction list with
  | nil => exact absurd rfl some
  | cons s list ih =>
    obtain ⟨first, others⟩ := List.forall_mem_cons.1 clear
    cases list with
    | nil => simp [ofSegments, segments, splitChars_of_not_mem first]
    | cons next list =>
      have rest := ih (by simp) others
      have spelled : (ofSegments (s :: next :: list)).text.toList =
          s.toList ++ '/' :: (ofSegments (next :: list)).text.toList := by
        simp [ofSegments, String.intercalate_cons_cons]
      rw [segments, spelled, splitChars_append_separator, splitChars_of_not_mem first, List.map_append]
      show [String.ofList s.toList] ++ (ofSegments (next :: list)).segments = _
      rw [rest, String.ofList_toList]
      rfl

theorem parts_ofSegments {list} (clear : ∀ s ∈ list, '/' ∉ s.toList) :
    (ofSegments list).parts = list.filter fun s => !isIdle s := by
  cases list with
  | nil => rfl
  | cons s list => rw [parts, segments_ofSegments (by simp) clear]

theorem stripParts_some {base list rest} (solid : ∀ part ∈ base, isIdle part = false)
    (strip : stripParts base list = some rest) :
    (list.filter fun s => !isIdle s) = base ++ (rest.filter fun s => !isIdle s) ∧ rest <:+ list ∧
      ∀ s ∈ rest.head?, isIdle s = false := by
  fun_induction stripParts base list with
  | case1 list =>
    obtain rfl := Option.some.inj strip
    refine ⟨?_, List.dropWhile_suffix _, fun s head => ?_⟩
    · rw [List.nil_append]
      induction list with
      | nil => rfl
      | cons s list ih =>
        by_cases idle : isIdle s = true
        · rw [List.filter_cons_of_neg (by simp [idle]), List.dropWhile_cons_of_pos idle]
          exact ih rfl
        · rw [List.dropWhile_cons_of_neg idle]
    · have stops := List.head?_dropWhile_not isIdle list
      rw [Option.mem_def.1 head] at stops
      simpa using stops
  | case2 => cases strip
  | case3 part base s list idle ih =>
    obtain ⟨split, suffix, head⟩ := ih solid strip
    refine ⟨?_, suffix.trans (List.suffix_cons s list), head⟩
    rw [List.filter_cons_of_neg (by simp [idle]), split]
  | case4 base s list idle ih =>
    obtain ⟨split, suffix, head⟩ := ih (fun part mem => solid part (List.mem_cons_of_mem _ mem)) strip
    refine ⟨?_, suffix.trans (List.suffix_cons s list), head⟩
    rw [List.filter_cons_of_pos (by simp [idle]), split, List.cons_append]
  | case5 => cases strip

theorem stripParts_none {base list} (solid : ∀ part ∈ base, isIdle part = false)
    (strip : stripParts base list = none) : ¬ base <+: list.filter fun s => !isIdle s := by
  fun_induction stripParts base list with
  | case1 list => cases strip
  | case2 => simp
  | case3 part base s list idle ih => simpa [idle] using ih solid strip
  | case4 base s list idle ih =>
    rw [List.filter_cons_of_pos (by simp [idle]), List.cons_prefix_cons]
    exact fun below => ih (fun part mem => solid part (List.mem_cons_of_mem _ mem)) strip below.2
  | case5 part base s list idle other =>
    rw [List.filter_cons_of_pos (by simp [idle]), List.cons_prefix_cons]
    exact fun below => other below.1.symm

theorem relativeTo?_some {p base way : Path} (below : p.relativeTo? base = some way) :
    p.parts = base.parts ++ way.parts ∧ way.isAbsolute = false := by
  obtain ⟨rest, strip, rfl⟩ := Option.map_eq_some_iff.1 below
  obtain ⟨split, suffix, head⟩ := stripParts_some (fun part mem => not_idle_of_mem_parts mem) strip
  have clear : ∀ s ∈ rest, '/' ∉ s.toList := fun s mem => not_mem_segment (suffix.subset mem)
  refine ⟨?_, ?_⟩
  · rw [parts_ofSegments clear]
    exact split
  · cases rest with
    | nil => rfl
    | cons s rest =>
      have solid : s ≠ "" := by
        rintro rfl
        simpa [isIdle] using head "" rfl
      obtain ⟨c, cs, spelled⟩ := List.exists_cons_of_ne_nil (mt String.toList_eq_nil_iff.1 solid)
      have other : c ≠ '/' := by
        rintro rfl
        exact clear s (by simp) (by simp [spelled])
      cases rest with
      | nil => simp [isAbsolute, ofSegments, spelled, other]
      | cons next rest => simp [isAbsolute, ofSegments, String.intercalate_cons_cons, spelled, other]

theorem relativeTo?_none {p base : Path} (apart : p.relativeTo? base = none) : ¬ base.parts <+: p.parts :=
  stripParts_none (fun _ mem => not_idle_of_mem_parts mem) (Option.map_eq_none_iff.1 apart)

theorem splitName_some {name old} (split : (splitName name).2 = some old) :
    ∃ stem, stem ≠ [] ∧ name.toList = stem ++ '.' :: old.toList ∧ '.' ∉ old.toList := by
  have drop (chars : List Char) :
      chars.drop (chars.takeWhile (· ≠ '.')).length = chars.dropWhile (· ≠ '.') := by
    induction chars with
    | nil => rfl
    | cons c chars ih => by_cases dot : c = '.' <;> simp_all
  unfold splitName at split
  dsimp only at split
  rw [drop] at split
  split at split
  · rename_i dot c stem rest
    obtain rfl := Option.some.inj split
    have whole := List.takeWhile_append_dropWhile (p := (· ≠ '.')) (l := name.toList.reverse)
    have stops : dot = '.' := by
      have head := List.head?_dropWhile_not (· ≠ '.') name.toList.reverse
      rw [rest] at head
      simpa using head
    refine ⟨(c :: stem).reverse, by simp, ?_, ?_⟩
    · have turned := congrArg List.reverse whole
      rw [List.reverse_append, rest, stops, List.reverse_reverse] at turned
      rw [String.toList_ofList]
      exact turned.symm.trans (by rw [List.reverse_cons, List.append_assoc, List.singleton_append])
    · intro mem
      rw [String.toList_ofList, List.mem_reverse] at mem
      simpa using List.all_eq_true.1 List.all_takeWhile _ mem
  · cases split

theorem withExtension_segments {p : Path} {old : String} (extension : p.extension? = some old)
    (solid : ∀ s ∈ p.segments.getLast?, isIdle s = false) :
    ∃ above stem, stem ≠ [] ∧ '.' ∉ old.toList ∧ p.segments = above ++ [String.ofList (stem ++ '.' :: old.toList)] ∧
      ∀ new : String, '/' ∉ new.toList →
        (p.withExtension new).segments = above ++ [String.ofList (stem ++ '.' :: new.toList)] := by
  obtain ⟨name, file, split⟩ := Option.bind_eq_some_iff.1 extension
  obtain ⟨stem, some, spelled, clear⟩ := splitName_some split
  obtain ⟨init, last, ⟨front, text⟩, apart, runs⟩ := splitChars_last '/' p.text.toList
  have whole : p.segments = init.map String.ofList ++ [String.ofList last] := by
    have cut := runs [] (by simp)
    rw [List.append_nil, List.append_nil] at cut
    rw [segments, cut, List.map_append]
    rfl
  -- The last segment leads somewhere, so it is the last part and the name of the file.
  have named : last = stem ++ '.' :: old.toList := by
    have leads : isIdle (String.ofList last) = false := solid _ (by simp [whole])
    have ends : p.parts.getLast? = Option.some (String.ofList last) := by simp [parts, whole, leads]
    have same : String.ofList last = name := by
      rw [fileName?, ends] at file
      exact (Option.filter_eq_some_iff.1 file).1 |> Option.some.inj
    rw [← spelled, ← same, String.toList_ofList]
  -- The old extension is cut off the text and the new one put there, both behind the same run.
  obtain ⟨init', last', -, -, runs'⟩ := splitChars_last '/' (front ++ stem ++ ['.'])
  have text' : p.text.toList = (front ++ stem ++ ['.']) ++ old.toList := by
    rw [← text, named]
    simp
  have inner : '/' ∉ old.toList := by
    intro mem
    exact apart (by simp [named, mem])
  have before := runs [] (by simp)
  rw [List.append_nil, List.append_nil, text', runs' _ inner, named] at before
  obtain ⟨rfl, cut⟩ := List.append_inj' before rfl
  have stems : last' = stem ++ ['.'] := by
    have same : last' ++ old.toList = (stem ++ ['.']) ++ old.toList := by simpa using cut
    exact List.append_cancel_right same
  refine ⟨init'.map String.ofList, stem, some, clear, ?_, fun new plain => ?_⟩
  · rw [whole, named]
  · have changed : (p.withExtension new).text.toList = (front ++ stem ++ ['.']) ++ new.toList := by
      have count : p.text.length - old.length = (front ++ stem ++ ['.']).length := by
        rw [← String.length_toList, ← String.length_toList, text', List.length_append, Nat.add_sub_cancel]
      unfold withExtension
      rw [extension]
      dsimp only
      rw [String.toList_append, String.toList_ofList, count, text', List.take_left]
    rw [segments, changed, runs' _ plain, stems, List.map_append]
    simp

def rank (part : String) : WithBot String := if part = parentSegment then ⊥ else part

theorem rank_injective : Function.Injective rank := by
  intro a b same
  unfold rank at same
  split at same <;> split at same <;> simp_all

theorem partBefore_iff {a b} : partBefore a b = true ↔ rank a < rank b := by
  unfold partBefore rank
  split <;> split <;> simp_all

theorem partsLe_iff {as bs} : partsLe as bs = true ↔ as.map rank ≤ bs.map rank := by
  rw [← not_lt]
  induction as generalizing bs with
  | nil => simp [partsLe]
  | cons a as ih =>
    cases bs with
    | nil => simp [partsLe]
    | cons b bs =>
      rw [partsLe, List.map_cons, List.map_cons, List.cons_lt_cons_iff, rank_injective.eq_iff]
      by_cases same : a = b
      · simp [same, ih]
      · have apart : rank a ≠ rank b := rank_injective.ne same
        simp [same, Ne.symm same, partBefore_iff, apart.le_iff_lt]

theorem partsLe_antisymm {as bs} (le : partsLe as bs = true) (ge : partsLe bs as = true) : as = bs :=
  rank_injective.list_map ((partsLe_iff.1 le).antisymm (partsLe_iff.1 ge))

theorem partsLe_trans {as bs cs} (first : partsLe as bs = true) (second : partsLe bs cs = true) :
    partsLe as cs = true :=
  partsLe_iff.2 ((partsLe_iff.1 first).trans (partsLe_iff.1 second))

theorem mem_of_mem_dropRepeats {p paths} (mem : p ∈ sortDistinct.dropRepeats paths) : p ∈ paths := by
  induction paths with
  | nil => cases mem
  | cons q paths ih =>
    rw [sortDistinct.dropRepeats] at mem
    split at mem
    · simp_all
    · rename_i r rest found
      rw [found] at ih
      split at mem
      · rcases List.mem_cons.1 mem with rfl | mem
        · exact List.mem_cons_self
        · exact List.mem_cons_of_mem _ (ih (List.mem_cons_of_mem _ mem))
      · rcases List.mem_cons.1 mem with rfl | mem
        · exact List.mem_cons_self
        · exact List.mem_cons_of_mem _ (ih mem)

theorem mem_of_mem_sortDistinct {p paths} (mem : p ∈ sortDistinct paths) : p ∈ paths :=
  List.mem_mergeSort.1 (mem_of_mem_dropRepeats mem)

theorem dropRepeats_pairwise {paths} (sorted : paths.Pairwise fun p q => p.le q = true) :
    (sortDistinct.dropRepeats paths).Pairwise fun p q => p.le q = true ∧ p.parts ≠ q.parts := by
  induction paths with
  | nil => exact .nil
  | cons p paths ih =>
    obtain ⟨below, sorted⟩ := List.pairwise_cons.1 sorted
    rw [sortDistinct.dropRepeats]
    split
    · exact List.pairwise_singleton _ _
    · rename_i q rest found
      have distinct := ih sorted
      rw [found] at distinct
      obtain ⟨first, others⟩ := List.pairwise_cons.1 distinct
      have here : p.le q = true := below q (mem_of_mem_dropRepeats (found ▸ List.mem_cons_self))
      split
      · rename_i same
        refine List.pairwise_cons.2 ⟨fun r mem => ?_, others⟩
        obtain ⟨le, ne⟩ := first r mem
        exact ⟨partsLe_trans here le, same ▸ ne⟩
      · rename_i other
        refine List.pairwise_cons.2 ⟨fun r mem => ?_, distinct⟩
        rcases List.mem_cons.1 mem with rfl | mem
        · exact ⟨here, other⟩
        · obtain ⟨le, ne⟩ := first r mem
          refine ⟨partsLe_trans here le, fun same => other (partsLe_antisymm here ?_)⟩
          rw [same]
          exact le

theorem sortDistinct_pairwise (paths : List Path) : (sortDistinct paths).Pairwise fun p q => p.parts ≠ q.parts := by
  have sorted := @List.pairwise_mergeSort _ le (fun _ _ _ => partsLe_trans)
    (fun p q => by simpa [le, partsLe_iff] using le_total (p.parts.map rank) (q.parts.map rank)) paths
  exact (dropRepeats_pairwise sorted).imp And.right

def stepped (here : List String) (part : String) : List String :=
  if part = parentSegment then here.dropLast else here ++ [part]

def resolved (parts : List String) : List String := parts.foldl stepped []

def climbs : Nat → List String → Bool
  | _, [] => false
  | depth, part :: parts =>
    if part = parentSegment then
      match depth with
      | 0 => true
      | depth + 1 => climbs depth parts
    else climbs (depth + 1) parts

theorem foldl_stepped_prefix {base parts} (deeper : List String) (stays : climbs deeper.length parts = false) :
    base <+: parts.foldl stepped (base ++ deeper) := by
  induction parts generalizing deeper with
  | nil => exact List.prefix_append base deeper
  | cons part parts ih =>
    rw [List.foldl_cons]
    unfold climbs at stays
    by_cases up : part = parentSegment
    · rw [if_pos up] at stays
      rcases deeper.eq_nil_or_concat with rfl | ⟨deeper, last, rfl⟩
      · cases stays
      · have back : stepped (base ++ deeper.concat last) part = base ++ deeper := by
          rw [stepped, if_pos up, List.concat_eq_append, ← List.append_assoc, List.dropLast_concat]
        rw [List.length_concat] at stays
        rw [back]
        exact ih deeper stays
    · have onward : stepped (base ++ deeper) part = base ++ (deeper ++ [part]) := by
        rw [stepped, if_neg up, List.append_assoc]
      rw [if_neg up] at stays
      rw [onward]
      exact ih _ (by simpa using stays)

theorem resolved_prefix {base way} (stays : climbs 0 way = false) : resolved base <+: resolved (base ++ way) := by
  unfold resolved
  rw [List.foldl_append]
  simpa using foldl_stepped_prefix [] stays

end Path

end ComponentCompiler.Files
