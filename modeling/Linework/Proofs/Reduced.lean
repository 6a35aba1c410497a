import Linework.Proofs.Canvas
import Linework.Proofs.Margin
import Linework.Reduction
import Mathlib.Data.List.Basic
import Mathlib.Data.List.Induction

/-! What a reduction makes of a list of outlines.

Nothing is ever added to an outline: all that takes its place is part of it. So the only thing that
an outline learns from the others is whether a loop is among them.
-/

set_option autoImplicit false

namespace Linework

namespace CellSet

variable {s t : CellSet} {c : Cell} {sets : List CellSet}

theorem Same.symm (same : s.Same t) : t.Same s := fun c => (same c).symm

theorem distinct_concat (sets : List CellSet) (s : CellSet) :
    distinct (sets ++ [s]) = if (distinct sets).any fun t => decide (t.Same s) then distinct sets
      else distinct sets ++ [s] := by
  rw [distinct, List.foldl_concat]
  rfl

theorem distinct_sublist (sets : List CellSet) : (distinct sets).Sublist sets := by
  induction sets using List.reverseRecOn with
  | nil => exact List.Sublist.refl _
  | append_singleton sets s ih =>
    rw [distinct_concat]
    split
    · exact ih.trans (List.sublist_append_left ..)
    · exact ih.append (List.Sublist.refl _)

theorem pairwise_distinct (sets : List CellSet) :
    (distinct sets).Pairwise fun s t => ¬ s.Same t := by
  induction sets using List.reverseRecOn with
  | nil => exact List.Pairwise.nil
  | append_singleton sets s ih =>
    rw [distinct_concat]
    split
    · exact ih
    · rename_i new
      refine List.pairwise_append.2 ⟨ih, List.pairwise_singleton .., ?_⟩
      intro t mem u last same
      rw [List.mem_singleton.1 last] at same
      exact new (List.any_eq_true.2 ⟨t, mem, decide_eq_true same⟩)

theorem distinct_eq_self (apart : sets.Pairwise fun s t => ¬ s.Same t) : distinct sets = sets := by
  induction sets using List.reverseRecOn with
  | nil => rfl
  | append_singleton sets s ih =>
    obtain ⟨before, -, across⟩ := List.pairwise_append.1 apart
    rw [distinct_concat, ih before, if_neg]
    intro met
    obtain ⟨t, mem, same⟩ := List.any_eq_true.1 met
    exact across t mem s (List.mem_singleton_self s) (of_decide_eq_true same)

-- Sets that are the same pass a test together, so the first of them is kept on either way.
theorem filter_distinct {p : CellSet → Bool} (alike : ∀ s t, s.Same t → p s = p t) :
    (distinct sets).filter p = distinct (sets.filter p) := by
  -- From the right, since a set is dropped for what stands before it.
  induction sets using List.reverseRecOn with
  | nil => rfl
  | append_singleton sets s ih =>
    rw [distinct_concat, List.filter_append]
    by_cases pass : p s
    case pos =>
      have met : (distinct (sets.filter p)).any (fun t => decide (t.Same s))
          = (distinct sets).any fun t => decide (t.Same s) := by
        rw [← ih, List.any_filter]
        congr 1
        funext t
        by_cases same : t.Same s
        · simp [same, alike t s same, pass]
        · simp [same]
      rw [List.filter_cons_of_pos pass, List.filter_nil, distinct_concat, met, ← ih]
      split
      · rfl
      · rw [List.filter_append, List.filter_cons_of_pos pass, List.filter_nil]
    case neg =>
      rw [List.filter_cons_of_neg pass, List.filter_nil, List.append_nil, ← ih]
      split
      · rfl
      · rw [List.filter_append, List.filter_cons_of_neg pass, List.filter_nil, List.append_nil]

theorem foldl_diff_subset (mem : c ∈ sets.foldl diff s) : c ∈ s := by
  induction sets generalizing s with
  | nil => exact mem
  | cons t rest ih => exact (mem_diff.1 (ih mem)).1

theorem diff_eq_self (apart : ∀ c ∈ s, c ∉ t) : s.diff t = s := by
  ext1
  exact List.filter_eq_self.2 fun c mem => decide_eq_true (apart c mem)

/-! ### Components -/

theorem Growth.visit_subset {w : Growth} {n : Cell} {cells : List Cell} (rest : w.rest ⊆ cells)
    (found : w.found ⊆ cells) : (w.visit n).rest ⊆ cells ∧ (w.visit n).found ⊆ cells := by
  unfold visit
  split
  · rename_i here
    exact ⟨fun c mem => rest (List.mem_of_mem_erase mem), List.cons_subset.2 ⟨rest here, found⟩⟩
  · exact ⟨rest, found⟩

theorem Growth.foldl_visit_subset {w : Growth} {ns cells : List Cell} (rest : w.rest ⊆ cells)
    (found : w.found ⊆ cells) :
    (ns.foldl visit w).rest ⊆ cells ∧ (ns.foldl visit w).found ⊆ cells := by
  induction ns generalizing w with
  | nil => exact ⟨rest, found⟩
  | cons n ns ih => exact ih (visit_subset rest found).1 (visit_subset rest found).2

theorem Growth.run_subset {w : Growth} {left cells : List Cell} (rest : w.rest ⊆ cells)
    (found : w.found ⊆ cells) (walked : left ⊆ cells) :
    (w.run left).1 ⊆ cells ∧ (w.run left).2 ⊆ cells := by
  fun_induction run w left with
  | case1 => exact ⟨rest, walked⟩
  | case2 w left c others here ih =>
    rw [here, List.cons_subset] at found
    obtain ⟨rest, others⟩ := foldl_visit_subset (w := ⟨w.rest, others⟩) rest found.2
    exact ih rest others (List.cons_subset.2 ⟨found.1, walked⟩)

theorem componentsAmong_subset {cells : List Cell} (mem : t ∈ componentsAmong cells) :
    t.toList ⊆ cells := by
  fun_induction componentsAmong cells with
  | case1 => cases mem
  | case2 seed others grown ih =>
    have within : grown.1 ⊆ seed :: others ∧ grown.2 ⊆ seed :: others :=
      Growth.run_subset (List.subset_cons_self ..) (by simp) (List.nil_subset _)
    rcases List.mem_cons.1 mem with rfl | mem
    · intro c mem
      exact within.2 (List.mem_reverse.1 (mem_ofList.1 mem))
    · exact List.Subset.trans (ih mem) within.1

end CellSet

namespace Outline

variable {alone g : Grid} {s t : CellSet} {c : Cell}

theorem form_eq_mixed (start : Cell) (ending : Circuit.Ending) (pocket : List Cell)
    (large : 1 < s.size)
    (kept : ∃ p ∈ localize? g s, (Ink.render p.1 p.2).Pocket pocket)
    (first : start? (g.isolate s) s = some start)
    (walked : Circuit.walk (g.isolate s) start (patience s) = .ok ending)
    (stops : ∀ cells, ending ≠ .closed cells) : form g s = .mixed := by
  obtain ⟨⟨alone, there⟩, localized, kept⟩ := kept
  have enclosed := encloses_of_fill localized kept.fill_leaves_blank
  rw [form, if_neg (Nat.not_le.2 large), enclosed]
  dsimp only
  rw [first, Option.map_some, walked]
  cases ending with
  | closed cells => exact absurd rfl (stops cells)
  | _ => rfl

theorem extendRun_subset {fresh passed : List Cell} {previous : Option Cell} {current : Cell}
    {run : Run} (rest : fresh ⊆ s.toList) (walked : passed ⊆ s.toList)
    (extended : extendRun alone s fresh passed previous current = .ok run) :
    run.cells ⊆ s.toList := by
  fun_induction extendRun alone s fresh passed previous current with
  | case4 fresh passed previous current next followed here _ _ _ _ =>
    cases extended
    exact List.cons_subset.2 ⟨rest here, walked⟩
  | case5 fresh passed previous current next followed here _ _ _ _ ih =>
    exact ih (fun c mem => rest (List.mem_of_mem_erase mem)) (List.cons_subset.2 ⟨rest here, walked⟩)
      extended
  | _ => cases extended <;> exact walked

theorem forall_takeRun {p : CellSet → Prop} {state next : List CellSet × List Cell}
    (each : alone.isLineEnd c → ∀ run, extendRun alone s (s.toList.erase c) [c] none c = .ok run →
      p (.ofList run.cells.reverse))
    (earlier : ∀ t ∈ state.1, p t) (taken : takeRun alone s state c = .ok next) :
    ∀ t ∈ next.1, p t := by
  unfold takeRun at taken
  split at taken
  · cases taken
    exact earlier
  · rename_i new
    rw [not_or, not_not] at new
    cases extended : extendRun alone s (s.toList.erase c) [c] none c with
    | error fault => simp [extended, bind, Except.bind] at taken
    | ok run =>
      simp only [extended, bind, Except.bind, pure, Except.pure] at taken
      cases taken
      exact List.forall_mem_cons.2 ⟨each new.2 run extended, earlier⟩

theorem forall_foldlM_takeRun {p : CellSet → Prop} {cells : List Cell}
    {state last : List CellSet × List Cell}
    (each : ∀ c ∈ cells, alone.isLineEnd c →
      ∀ run, extendRun alone s (s.toList.erase c) [c] none c = .ok run →
        p (.ofList run.cells.reverse))
    (earlier : ∀ t ∈ state.1, p t) (taken : cells.foldlM (takeRun alone s) state = .ok last) :
    ∀ t ∈ last.1, p t := by
  induction cells generalizing state with
  | nil =>
    cases taken
    exact earlier
  | cons c rest ih =>
    obtain ⟨here, later⟩ := List.forall_mem_cons.1 each
    rw [List.foldlM_cons] at taken
    cases first : takeRun alone s state c with
    | error fault => simp [first, bind, Except.bind] at taken
    | ok next =>
      simp only [first, bind, Except.bind] at taken
      exact ih later (forall_takeRun here earlier first) taken

theorem foldlM_takeRun_subset {cells : List Cell} {state last : List CellSet × List Cell}
    (mem : cells ⊆ s.toList) (walked : ∀ t ∈ state.1, t.toList ⊆ s.toList)
    (taken : cells.foldlM (takeRun alone s) state = .ok last) :
    ∀ t ∈ last.1, t.toList ⊆ s.toList := by
  refine forall_foldlM_takeRun (p := fun t => t.toList ⊆ s.toList) ?_ walked taken
  intro c here _ run extended d inside
  have within := extendRun_subset (fun n left => List.mem_of_mem_erase left)
    (List.cons_subset.2 ⟨mem here, List.nil_subset _⟩) extended
  exact within (List.mem_reverse.1 (CellSet.mem_ofList.1 inside))

/-- The parts of a set are the runs taken and what they leave over. -/
theorem exists_runs {pieces : List CellSet} (taken : parts g s = .ok pieces) :
    ∃ last, s.toList.foldlM (takeRun (g.isolate s) s) ([], []) = .ok last ∧
      pieces = last.1.reverse ++ if (last.1.foldl CellSet.diff s).isEmpty then []
        else [last.1.foldl CellSet.diff s] := by
  unfold parts at taken
  cases runs : s.toList.foldlM (takeRun (g.isolate s) s) ([], []) with
  | error fault => simp [runs, bind, Except.bind] at taken
  | ok last =>
    simp only [runs, bind, Except.bind, pure, Except.pure] at taken
    cases taken
    exact ⟨last, rfl, rfl⟩

theorem parts_subset {pieces : List CellSet} (taken : parts g s = .ok pieces) (mem : t ∈ pieces) :
    t.toList ⊆ s.toList := by
  obtain ⟨last, runs, rfl⟩ := exists_runs taken
  rcases List.mem_append.1 mem with mem | mem
  · exact foldlM_takeRun_subset (List.Subset.refl _) (by simp) runs t (List.mem_reverse.1 mem)
  · split at mem
    · cases mem
    · rw [List.mem_singleton.1 mem]
      intro c here
      exact CellSet.foldl_diff_subset here

end Outline

namespace Reduction

open Outline (Form form)

variable {g : Grid} {loops outlines sets : List CellSet} {s t : CellSet}

def ofForm (g : Grid) (kind : Form) (sets : List CellSet) : List CellSet :=
  sets.filter fun s => form g s = kind

theorem mem_ofForm {kind : Form} : s ∈ ofForm g kind sets ↔ s ∈ sets ∧ form g s = kind := by
  simp [ofForm]

/-- What stays in the place of an outline among the given loops, and the new parts of it. -/
def replacement (g : Grid) (loops : List CellSet) (s : CellSet) : List CellSet × List CellSet :=
  if form g s = .mixed then if loops.isEmpty then takeApart g s else subtract g loops s
  else ([s], [])

/-- Every outline replaced as it is among the given loops, with the new parts at the end. -/
def resolveAmong (g : Grid) (loops sets : List CellSet) : List CellSet :=
  sets.flatMap (fun s => (replacement g loops s).1) ++
    sets.flatMap fun s => (replacement g loops s).2

theorem resolve_eq (g : Grid) (sets : List CellSet) :
    resolve g sets = resolveAmong g (ofForm g .loop sets) sets := by
  have loops : ((sets.map fun s => (s, form g s)).filter fun s => s.2 = .loop).map Prod.fst
      = ofForm g .loop sets := by
    rw [ofForm, List.filter_map, List.map_map]
    exact List.map_id _
  unfold resolve
  dsimp only
  rw [loops, List.flatMap_map, List.flatMap_map, List.flatMap_map, List.flatMap_map]
  rfl

theorem replacement_of_not_mixed (clear : form g s ≠ .mixed) :
    replacement g loops s = ([s], []) := if_neg clear

theorem replacement_of_mixed (mixed : form g s = .mixed) (filled : loops.isEmpty = false) :
    replacement g loops s = subtract g loops s := by
  rw [replacement, if_pos mixed, filled]
  rfl

theorem resolveAmong_eq_self (kept : ∀ s ∈ sets, replacement g loops s = ([s], [])) :
    resolveAmong g loops sets = sets := by
  have first : sets.flatMap (fun s => (replacement g loops s).1) = sets := by
    rw [List.flatMap_congr fun s mem => congrArg Prod.fst (kept s mem)]
    exact List.flatMap_singleton' sets
  have second : sets.flatMap (fun s => (replacement g loops s).2) = [] :=
    List.flatMap_eq_nil_iff.2 fun s mem => congrArg Prod.snd (kept s mem)
  rw [resolveAmong, first, second, List.append_nil]

theorem resolve_eq_self (clear : ∀ s ∈ sets, form g s ≠ .mixed) : resolve g sets = sets := by
  rw [resolve_eq]
  exact resolveAmong_eq_self fun s mem => replacement_of_not_mixed (clear s mem)

theorem replacement_subset (mem : t ∈ (replacement g loops s).1 ∨ t ∈ (replacement g loops s).2) :
    t.toList ⊆ s.toList := by
  unfold replacement at mem
  split at mem
  · split at mem
    · unfold takeApart at mem
      split at mem
      · rename_i parts taken
        exact Outline.parts_subset taken (mem.resolve_left List.not_mem_nil)
      · simp at mem
    · unfold subtract at mem
      have within : (loops.foldl CellSet.diff s).toList ⊆ s.toList :=
        fun c here => CellSet.foldl_diff_subset here
      dsimp only at mem
      split at mem
      · exact List.Subset.trans (CellSet.componentsAmong_subset (mem.resolve_left List.not_mem_nil))
          within
      · rw [List.mem_singleton.1 (mem.resolve_right List.not_mem_nil)]
        exact within
  · rw [List.mem_singleton.1 (mem.resolve_right List.not_mem_nil)]
    exact List.Subset.refl _

/-- Where there are loops but none of them meets a mixed outline, it stays as it is. -/
theorem replacement_of_apart (filled : loops.isEmpty = false)
    (apart : ∀ t ∈ loops, ∀ c ∈ s, c ∉ t) : replacement g loops s = ([s], []) := by
  have remainder : loops.foldl CellSet.diff s = s := by
    clear filled
    induction loops with
    | nil => rfl
    | cons t rest ih =>
      rw [List.foldl_cons, CellSet.diff_eq_self (apart t (List.mem_cons_self ..))]
      exact ih fun u mem => apart u (List.mem_cons_of_mem _ mem)
  by_cases mixed : form g s = .mixed
  · rw [replacement_of_mixed mixed filled, subtract, remainder, mixed]
    rfl
  · exact replacement_of_not_mixed mixed

def resolved (g : Grid) (outlines : List CellSet) : List CellSet :=
  (CellSet.distinct (resolve g (CellSet.distinct outlines))).filter (!·.isEmpty)

theorem ofOutlines_eq (g : Grid) (outlines : List CellSet) :
    ofOutlines g outlines = ⟨ofForm g .strand (resolved g outlines),
      dropObsolete (ofForm g .loop (resolved g outlines))⟩ := by
  have sorted (kind : Form) : (((resolved g outlines).map fun s => (s, form g s)).filter fun s =>
      s.2 = kind).map Prod.fst = ofForm g kind (resolved g outlines) := by
    rw [ofForm, List.filter_map, List.map_map]
    exact List.map_id _
  rw [← sorted, ← sorted]
  rfl

theorem mem_resolved (mem : s ∈ resolved g outlines) :
    s.isEmpty = false ∧ ∃ t ∈ outlines, s.toList ⊆ t.toList := by
  obtain ⟨mem, filled⟩ := List.mem_filter.1 mem
  refine ⟨by simpa using filled, ?_⟩
  have here := (CellSet.distinct_sublist _).subset mem
  rw [resolve_eq, resolveAmong, List.mem_append, List.mem_flatMap, List.mem_flatMap] at here
  rcases here with ⟨t, source, piece⟩ | ⟨t, source, piece⟩
  · exact ⟨t, (CellSet.distinct_sublist _).subset source, replacement_subset (.inl piece)⟩
  · exact ⟨t, (CellSet.distinct_sublist _).subset source, replacement_subset (.inr piece)⟩

theorem resolved_of_clear (clear : ∀ s ∈ CellSet.distinct outlines, form g s ≠ .mixed) :
    resolved g outlines = (CellSet.distinct outlines).filter (!·.isEmpty) := by
  rw [resolved, resolve_eq_self clear, CellSet.distinct_eq_self (CellSet.pairwise_distinct outlines)]

theorem isEmpty_of_form {kind : Form} (found : form g s = kind) (other : kind ≠ .strand) :
    s.isEmpty = false := by
  rw [Bool.eq_false_iff]
  intro bare
  have small : s.size ≤ 1 := by
    rw [CellSet.size, List.isEmpty_iff.1 bare]
    exact Nat.zero_le 1
  rw [form, if_pos small] at found
  exact other found.symm

theorem resolved_of_loops (loops : ∀ s ∈ outlines, form g s = .loop) :
    resolved g outlines = CellSet.distinct outlines := by
  have kept : ∀ s ∈ CellSet.distinct outlines, form g s = .loop :=
    fun s mem => loops s ((CellSet.distinct_sublist outlines).subset mem)
  rw [resolved_of_clear fun s mem => by rw [kept s mem]; decide]
  refine List.filter_eq_self.2 fun s mem => ?_
  rw [isEmpty_of_form (kept s mem) (by decide)]
  rfl

theorem ofOutlines_of_loops (loops : ∀ s ∈ outlines, form g s = .loop) :
    ofOutlines g outlines = ⟨[], dropObsolete (CellSet.distinct outlines)⟩ := by
  have kept : ∀ s ∈ CellSet.distinct outlines, form g s = .loop :=
    fun s mem => loops s ((CellSet.distinct_sublist outlines).subset mem)
  have strands : ofForm g .strand (CellSet.distinct outlines) = [] :=
    List.filter_eq_nil_iff.2 fun s mem => by simp [kept s mem]
  have all : ofForm g .loop (CellSet.distinct outlines) = CellSet.distinct outlines :=
    List.filter_eq_self.2 fun s mem => decide_eq_true (kept s mem)
  rw [ofOutlines_eq, resolved_of_loops loops, strands, all]

end Reduction

end Linework
