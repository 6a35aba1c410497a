import Linework.Outline
import Linework.Proofs.Survey
import Linework.Proofs.TwoWay

/-! The parts of an outline that is taken apart.

Where lines lead both ways, a run from a line end takes all that a line without branches connects to
it. So two runs are the same or have no cell in common, and the same run is not taken twice.
-/

set_option autoImplicit false

namespace Linework

namespace CellSet

theorem mem_foldl_diff {sets : List CellSet} {s : CellSet} {c : Cell} :
    c ∈ sets.foldl diff s ↔ c ∈ s ∧ ∀ t ∈ sets, c ∉ t := by
  induction sets generalizing s with
  | nil => simp
  | cons t rest ih => simp [ih, and_assoc]

end CellSet

namespace Grid

variable {g : Grid} {c n : Cell} {next onward : List Cell} {blocked : Option Cell}

def Unbranched (g : Grid) (c : Cell) : Prop :=
  ∃ next, g.continuations? c = some next ∧ next.length ≤ 2

instance (g : Grid) : DecidablePred g.Unbranched := fun c =>
  decidable_of_iff (∃ next ∈ g.continuations? c, next.length ≤ 2) Iff.rfl

def stems (g : Grid) : SimpleGraph Cell where
  Adj c n := (g.Goes c n ∧ g.Goes n c) ∧ g.Unbranched c ∧ g.Unbranched n
  symm := ⟨fun _ _ both => ⟨both.1.symm, both.2.symm⟩⟩
  loopless := ⟨fun _ both => both.1.1.ne rfl⟩

instance (g : Grid) : DecidableRel g.stems.Adj := fun c n =>
  inferInstanceAs (Decidable ((g.Goes c n ∧ g.Goes n c) ∧ g.Unbranched c ∧ g.Unbranched n))

theorem mem_of_follow (followed : g.follow c blocked = .ok next) :
    n ∈ next ↔ g.Goes c n ∧ blocked ≠ some n := by
  obtain ⟨all, found, mem⟩ := Strand.follow_ok followed
  rw [mem, goes_iff found]

theorem nodup_follow (followed : g.follow c blocked = .ok next) : next.Nodup := by
  unfold follow at followed
  split at followed
  · cases followed
  · rename_i all found
    cases followed
    exact (nodup_continuations found).filter _

theorem perm_of_follow (goes : g.Goes c n) (followed : g.follow c (some n) = .ok onward) :
    ∃ next, g.continuations? c = some next ∧ next.Perm (n :: onward) := by
  obtain ⟨next, found, mem⟩ := goes
  have new : n ∉ onward := fun back => ((mem_of_follow followed).1 back).2 rfl
  refine ⟨next, found, (List.perm_ext_iff_of_nodup (nodup_continuations found)
    (List.nodup_cons.2 ⟨new, nodup_follow followed⟩)).2 fun c => ?_⟩
  rw [List.mem_cons, mem_of_follow followed, goes_iff found]
  by_cases same : c = n
  · simp [same, mem]
  · simp [same, Ne.symm same]

theorem unbranched_iff (goes : g.Goes c n) (followed : g.follow c (some n) = .ok onward) :
    g.Unbranched c ↔ onward.length ≤ 1 := by
  obtain ⟨next, found, perm⟩ := perm_of_follow goes followed
  have count := perm.length_eq
  rw [List.length_cons] at count
  constructor
  · rintro ⟨all, same, few⟩
    cases found.symm.trans same
    omega
  · exact fun few => ⟨next, found, by omega⟩

end Grid

namespace Outline

open Grid

variable {g alone : Grid} {s : CellSet} {start current next c n : Cell} {fresh passed : List Cell}
  {previous : Option Cell} {onward : List Cell}

/-- A run under way: it has passed cells that are connected to its start without a branch, and only
where it has come to may such cells be left. -/
structure Running (alone : Grid) (s : CellSet) (start : Cell) (fresh passed : List Cell)
    (previous : Option Cell) (current : Cell) : Prop where
  nodup : fresh.Nodup
  fresh_iff : ∀ c, c ∈ fresh ↔ c ∈ s ∧ c ∉ passed
  begun : start ∈ passed
  here : current ∈ passed
  unbranched : alone.Unbranched current
  reached : ∀ c ∈ passed, alone.stems.Reachable start c
  closed : ∀ c ∈ passed, c ≠ current → ∀ n, alone.stems.Adj c n → n ∈ passed
  came : (previous = none ∧ current = start) ∨
    ∃ p ∈ passed, previous = some p ∧ alone.Goes current p

structure Stem (alone : Grid) (start : Cell) (run : Run) : Prop where
  mem_iff : ∀ c, c ∈ run.cells ↔ alone.stems.Reachable start c
  ends : ∀ c ∈ run.cells, alone.isLineEnd c → c = start ∨ run.finish = some c
  finish : ∀ c, run.finish = some c → c ∈ run.cells

namespace Running

theorem init (twoWay : (g.isolate s).TwoWay)
    (finish : (g.isolate s).isLineEnd start) :
    Running (g.isolate s) s start (s.toList.erase start) [start] none start where
  nodup := s.nodup.erase _
  fresh_iff c := by
    rw [s.nodup.mem_erase_iff, List.mem_singleton, and_comm]
    rfl
  begun := List.mem_singleton_self _
  here := List.mem_singleton_self _
  unbranched := by
    obtain ⟨next, found⟩ := continuations?_of_isLineEnd finish
    refine ⟨next, found, Nat.le_succ_of_le (twoWay.length_of_isLineEnd finish found)⟩
  reached c mem := by rw [List.mem_singleton.1 mem]
  closed c mem apart := absurd (List.mem_singleton.1 mem) apart
  came := .inl ⟨rfl, rfl⟩

variable (running : Running alone s start fresh passed previous current)
include running

theorem length_follow_le (twoWay : alone.TwoWay) (finish : alone.isLineEnd start)
    (followed : alone.follow current previous = .ok onward) : onward.length ≤ 1 := by
  rcases running.came with ⟨rfl, rfl⟩ | ⟨p, -, rfl, back⟩
  · exact twoWay.length_of_isLineEnd finish (follow_none_iff.1 followed)
  · exact (unbranched_iff back followed).1 running.unbranched

theorem mem_passed_or (followed : alone.follow current previous = .ok onward)
    (goes : alone.Goes current n) : n ∈ passed ∨ n ∈ onward := by
  by_cases back : previous = some n
  · rcases running.came with ⟨none, -⟩ | ⟨p, mem, same, -⟩
    · rw [back] at none
      cases none
    · rw [back, Option.some.injEq] at same
      exact .inl (same ▸ mem)
  · exact .inr ((mem_of_follow followed).2 ⟨goes, back⟩)

theorem mem_iff (stuck : ∀ n, alone.stems.Adj current n → n ∈ passed) (c : Cell) :
    c ∈ passed ↔ alone.stems.Reachable start c := by
  refine ⟨running.reached c, fun reach => ?_⟩
  refine mem_of_reachable (p := (· ∈ passed)) (fun a b mem adj => ?_) reach running.begun
  by_cases last : a = current
  · exact stuck b (last ▸ adj)
  · exact running.closed a mem last b adj

/-- One step of a run to a cell that does not branch. -/
theorem step (twoWay : alone.TwoWay) (followed : alone.follow current previous = .ok [next])
    (followed' : alone.follow next (some current) = .ok onward) (few : onward.length ≤ 1) :
    Running alone s start (fresh.erase next) (next :: passed) (some current) next := by
  have goes := ((mem_of_follow followed).1 (List.mem_singleton_self _)).1
  have back := twoWay _ _ goes
  have unbranched := (unbranched_iff back followed').2 few
  have adj : alone.stems.Adj current next := ⟨⟨goes, back⟩, running.unbranched, unbranched⟩
  refine ⟨running.nodup.erase _, fun c => ?_, List.mem_cons_of_mem _ running.begun,
    List.mem_cons_self .., unbranched, ?_, ?_,
    .inr ⟨current, List.mem_cons_of_mem _ running.here, rfl, back⟩⟩
  · rw [running.nodup.mem_erase_iff, running.fresh_iff, List.mem_cons, not_or]
    tauto
  · exact List.forall_mem_cons.2
      ⟨(running.reached _ running.here).trans adj.reachable, running.reached⟩
  · intro c mem apart n adj
    have mem := (List.mem_cons.1 mem).resolve_left apart
    by_cases last : c = current
    · rcases running.mem_passed_or followed (last ▸ adj.1.1) with old | new
      · exact List.mem_cons_of_mem _ old
      · exact List.mem_singleton.1 new ▸ List.mem_cons_self ..
    · exact List.mem_cons_of_mem _ (running.closed c mem last n adj)

theorem stem (stuck : ∀ n, alone.stems.Adj current n → n ∈ passed)
    (ends : ∀ c ∈ passed, alone.isLineEnd c → c = start) : Stem alone start ⟨passed, none⟩ where
  mem_iff := running.mem_iff stuck
  ends c mem finish := .inl (ends c mem finish)
  finish _ none := nomatch none

end Running

/-- Where lines lead both ways, a run from a line end succeeds and is a stem. -/
theorem exists_stem (twoWay : (g.isolate s).TwoWay) (finish : (g.isolate s).isLineEnd start)
    (running : Running (g.isolate s) s start fresh passed previous current)
    (ends : ∀ c ∈ passed, (g.isolate s).isLineEnd c → c = start) :
    ∃ run, extendRun (g.isolate s) s fresh passed previous current = .ok run ∧
      Stem (g.isolate s) start run := by
  -- Along the run: `Running` is kept while it goes on, and gives the stem where it stops.
  fun_induction extendRun (g.isolate s) s fresh passed previous current with
  | case1 fresh passed previous current fault failed =>
    obtain ⟨next, found, -⟩ := running.unbranched
    rw [Strand.follow_error failed] at found
    cases found
  | case2 fresh passed previous current next followed left fault failed =>
    obtain ⟨back, found, -⟩ :=
      twoWay _ _ ((mem_of_follow followed).1 (List.mem_singleton_self next)).1
    rw [Strand.follow_error failed] at found
    cases found
  | case3 fresh passed previous current next followed left onward followed' many =>
    refine ⟨_, rfl, running.stem (fun n adj => ?_) ends⟩
    refine (running.mem_passed_or followed adj.1.1).resolve_right fun new => ?_
    obtain rfl := List.mem_singleton.1 new
    exact absurd ((unbranched_iff adj.1.2 followed').1 adj.2.2) (Nat.not_le.2 many)
  | case4 fresh passed previous current next followed left onward followed' few finish' =>
    have last := running.step twoWay followed followed' (Nat.not_lt.1 few)
    have back := twoWay _ _ ((mem_of_follow followed).1 (List.mem_singleton_self next)).1
    refine ⟨_, rfl, last.mem_iff fun n adj => ?_, fun c mem end' => ?_, fun c same => ?_⟩
    · rw [twoWay.eq_of_isLineEnd finish' adj.1.1 back]
      exact List.mem_cons_of_mem _ running.here
    · rcases List.mem_cons.1 mem with rfl | mem
      · exact .inr rfl
      · exact .inl (ends c mem end')
    · cases same
      exact List.mem_cons_self ..
  | case5 fresh passed previous current next followed left onward followed' few goesOn ih =>
    refine ih (running.step twoWay followed followed' (Nat.not_lt.1 few)) ?_
    exact List.forall_mem_cons.2 ⟨fun end' => absurd end' goesOn, ends⟩
  | case6 fresh passed previous current next followed met inside =>
    refine ⟨_, rfl, running.stem (fun n adj => ?_) ends⟩
    rcases running.mem_passed_or followed adj.1.1 with mem | same
    · exact mem
    · obtain rfl := List.mem_singleton.1 same
      by_contra new
      exact met ((running.fresh_iff n).2 ⟨inside, new⟩)
  | case7 fresh passed previous current next followed met outside =>
    exact absurd ((mem_of_follow followed).1 (List.mem_singleton_self next)).1.mem.2 outside
  | case8 fresh passed previous current onward several followed =>
    have few := running.length_follow_le twoWay finish followed
    have other : onward.length ≠ 1 := fun one => by
      obtain ⟨next, rfl⟩ := List.length_eq_one_iff.1 one
      exact several next rfl
    have none : onward.length = 0 := by omega
    obtain rfl := List.eq_nil_of_length_eq_zero none
    exact ⟨_, rfl, running.stem (fun n adj =>
      (running.mem_passed_or followed adj.1.1).resolve_right List.not_mem_nil) ends⟩

def IsStem (alone : Grid) (a : Cell) (piece : CellSet) : Prop :=
  ∀ c, c ∈ piece ↔ alone.stems.Reachable a c

structure Taken (alone : Grid) (s : CellSet) (state : List CellSet × List Cell) : Prop where
  stem : ∀ r ∈ state.1, ∃ a ∈ s, alone.isLineEnd a ∧ IsStem alone a r
  apart : state.1.Pairwise fun p q => ∀ c ∈ p, c ∉ q
  ends : ∀ r ∈ state.1, ∀ c ∈ r, alone.isLineEnd c → c ∈ state.2
  known : ∀ c ∈ state.2, ∃ r ∈ state.1, c ∈ r

theorem Taken.step (twoWay : (g.isolate s).TwoWay) {state : List CellSet × List Cell}
    (taken : Taken (g.isolate s) s state) (mem : c ∈ s) :
    ∃ state', takeRun (g.isolate s) s state c = .ok state' ∧ Taken (g.isolate s) s state' ∧
      (∀ n ∈ state.2, n ∈ state'.2) ∧ ((g.isolate s).isLineEnd c → c ∈ state'.2) := by
  unfold takeRun
  split
  · rename_i skip
    exact ⟨state, rfl, taken, fun n known => known, fun finish =>
      skip.resolve_right fun out => out finish⟩
  · rename_i fresh
    rw [not_or, not_not] at fresh
    obtain ⟨new, finish⟩ := fresh
    obtain ⟨run, extended, stem⟩ := exists_stem twoWay finish (.init twoWay finish)
      fun n here _ => List.mem_singleton.1 here
    have same (n : Cell) : n ∈ CellSet.ofList run.cells.reverse ↔ n ∈ run.cells := by
      rw [CellSet.mem_ofList, List.mem_reverse]
    have isStem : IsStem (g.isolate s) c (.ofList run.cells.reverse) := fun n =>
      (same n).trans (stem.mem_iff n)
    refine ⟨_, by rw [extended]; rfl, ⟨?_, ?_, ?_, ?_⟩, fun n known => by simp [known],
      fun _ => by simp⟩
    · exact List.forall_mem_cons.2 ⟨⟨c, mem, finish, isStem⟩, taken.stem⟩
    · refine List.pairwise_cons.2 ⟨fun r old n here there => ?_, taken.apart⟩
      -- A run that meets an older one is the same, and then its line end is known.
      obtain ⟨a, -, -, reach⟩ := taken.stem r old
      have joined := ((reach n).1 there).trans ((isStem n).1 here).symm
      exact new (taken.ends r old c ((reach c).2 joined) finish)
    · refine List.forall_mem_cons.2 ⟨fun n here finish' => ?_, fun r old n here finish' => ?_⟩
      · rcases stem.ends n ((same n).1 here) finish' with rfl | last
        · simp
        · simp [last]
      · simp [taken.ends r old n here finish']
    · intro n known
      rcases List.mem_append.1 known with last | known
      · exact ⟨_, List.mem_cons_self .., (same n).2 (stem.finish n (Option.mem_toList.1 last))⟩
      · rcases List.mem_cons.1 known with rfl | known
        · exact ⟨_, List.mem_cons_self .., (isStem n).2 (.refl n)⟩
        · obtain ⟨r, old, here⟩ := taken.known n known
          exact ⟨r, List.mem_cons_of_mem _ old, here⟩

theorem Taken.run (twoWay : (g.isolate s).TwoWay) :
    ∃ state, s.toList.foldlM (takeRun (g.isolate s) s) ([], []) = .ok state ∧
      Taken (g.isolate s) s state ∧ ∀ c ∈ s, (g.isolate s).isLineEnd c → c ∈ state.2 := by
  refine foldlM_ok _ s.toList _ (fun done state => Taken (g.isolate s) s state ∧
    ∀ c ∈ done, (g.isolate s).isLineEnd c → c ∈ state.2) ?_ ?_
  · exact ⟨⟨by simp, .nil, by simp, by simp⟩, by simp⟩
  · rintro done c rest state cut ⟨taken, known⟩
    have mem : c ∈ s := CellSet.mem_def.2 (cut ▸ by simp)
    obtain ⟨state', took, taken', keeps, added⟩ := taken.step twoWay mem
    refine ⟨state', took, taken', fun n here finish => ?_⟩
    rcases List.mem_append.1 here with old | new
    · exact keeps n (known n old finish)
    · rw [List.mem_singleton.1 new] at finish ⊢
      exact added finish

def IsRest (alone : Grid) (s rest : CellSet) : Prop :=
  ∀ c, c ∈ rest ↔ c ∈ s ∧ ∀ a ∈ s, alone.isLineEnd a → ¬ alone.stems.Reachable a c

/-- Where lines lead both ways, an outline can be taken apart and no cell is lost or repeated: each
part is all that is connected to a line end without a branch, or the rest. -/
theorem parts_apart (twoWay : (g.isolate s).TwoWay) :
    ∃ pieces, parts g s = .ok pieces ∧ pieces.Pairwise (fun p q => ∀ c ∈ p, c ∉ q) ∧
      (∀ c, c ∈ s ↔ ∃ p ∈ pieces, c ∈ p) ∧
      ∀ p ∈ pieces, (∃ a ∈ s, (g.isolate s).isLineEnd a ∧ IsStem (g.isolate s) a p) ∨
        IsRest (g.isolate s) s p := by
  obtain ⟨⟨runs, known⟩, walked, taken, reached⟩ := Taken.run twoWay
  -- A cell is left just when no line end reaches it through unbranched cells.
  have isRest : IsRest (g.isolate s) s (runs.foldl CellSet.diff s) := by
    intro c
    rw [CellSet.mem_foldl_diff]
    refine and_congr_right fun mem => ⟨fun out a inside finish reach => ?_, fun out r old here => ?_⟩
    · obtain ⟨r, old, here⟩ := taken.known a (reached a inside finish)
      obtain ⟨b, -, -, isStem⟩ := taken.stem r old
      exact out r old ((isStem c).2 (((isStem a).1 here).trans reach))
    · obtain ⟨a, inside, finish, isStem⟩ := taken.stem r old
      exact out a inside finish ((isStem c).1 here)
  have subset (r : CellSet) (old : r ∈ runs) (c : Cell) (here : c ∈ r) : c ∈ s :=
    foldlM_takeRun_subset (List.Subset.refl _) (by simp) walked r old here
  have runsApart : runs.reverse.Pairwise fun p q => ∀ c ∈ p, c ∉ q :=
    List.pairwise_reverse.2 (taken.apart.imp fun apart c there here => apart c here there)
  have mem_rest {p : CellSet} (new : p ∈ if (runs.foldl CellSet.diff s).isEmpty then []
      else [runs.foldl CellSet.diff s]) : p = runs.foldl CellSet.diff s := by
    split at new
    · cases new
    · exact List.mem_singleton.1 new
  refine ⟨_, by rw [parts, walked]; rfl, ?_, fun c => ⟨fun mem => ?_, ?_⟩, fun p mem => ?_⟩
  · refine List.pairwise_append.2 ⟨runsApart, ?_, fun p old q new c here there => ?_⟩
    · split <;> simp
    · rw [mem_rest new, CellSet.mem_foldl_diff] at there
      exact there.2 p (List.mem_reverse.1 old) here
  · by_cases taken' : ∃ r ∈ runs, c ∈ r
    · obtain ⟨r, old, here⟩ := taken'
      exact ⟨r, List.mem_append_left _ (List.mem_reverse.2 old), here⟩
    · have left : c ∈ runs.foldl CellSet.diff s :=
        CellSet.mem_foldl_diff.2 ⟨mem, fun r old here => taken' ⟨r, old, here⟩⟩
      rw [if_neg fun none => CellSet.isEmpty_iff.1 none c left]
      exact ⟨_, List.mem_append_right _ (List.mem_singleton_self _), left⟩
  · rintro ⟨p, mem, here⟩
    rcases List.mem_append.1 mem with old | new
    · exact subset p (List.mem_reverse.1 old) c here
    · exact ((isRest c).1 (mem_rest new ▸ here)).1
  · rcases List.mem_append.1 mem with old | new
    · exact .inl (taken.stem p (List.mem_reverse.1 old))
    · exact .inr (mem_rest new ▸ isRest)

def pierced : Grid :=
  ⟨6, 3, #[' ', ' ', '+', '-', '-', '+', '-', '-', '+', '-', ' ', '|', ' ', ' ', '+', '-', '-', '+'],
    rfl⟩

theorem parts_apart_pierced : (pierced.isolate pierced.written).TwoWay ∧
    ∃ pieces, parts pierced pierced.written = .ok pieces ∧
      pieces.Pairwise (fun p q => ∀ c ∈ p, c ∉ q) ∧
      (∀ c, c ∈ pierced.written ↔ ∃ p ∈ pieces, c ∈ p) ∧
      ∀ p ∈ pieces, (∃ a ∈ pierced.written, (pierced.isolate pierced.written).isLineEnd a ∧
          IsStem (pierced.isolate pierced.written) a p) ∨
        IsRest (pierced.isolate pierced.written) pierced.written p :=
  have twoWay := TwoWay.of_cells (by decide +kernel)
  ⟨twoWay, parts_apart twoWay⟩

/-- A box with a line that starts beside its wall. At the wall there is no corner, so the line leads
to it and not back. -/
def handled : Grid :=
  ⟨7, 3, #['+', '-', '-', '+', ' ', ' ', ' ', '|', ' ', ' ', '|', '-', '-', '-',
    '+', '-', '-', '+', ' ', ' ', ' '], rfl⟩

/-- The run from the inner end of the line stops there, since the line goes on both ways; the run
from its outer end takes the same cell once more. -/
theorem handled_parts_overlap :
    form handled handled.written = .mixed ∧
      ∃ pieces, parts handled handled.written = .ok pieces ∧
        ¬ pieces.Pairwise (fun p q => ∀ c ∈ p, c ∉ q) := by
  refine ⟨form_eq_mixed ⟨4, 1⟩ .deadEnd ((blank 8 5).cells.map (·.translate 5 5)) (by decide)
    (by decide +kernel) (by decide +kernel) (by decide +kernel) fun _ => Circuit.Ending.noConfusion,
    [⟨[⟨4, 1⟩], by decide⟩, ⟨[⟨6, 1⟩, ⟨5, 1⟩, ⟨4, 1⟩], by decide⟩,
      ⟨[⟨0, 0⟩, ⟨1, 0⟩, ⟨2, 0⟩, ⟨3, 0⟩, ⟨0, 1⟩, ⟨3, 1⟩, ⟨0, 2⟩, ⟨1, 2⟩, ⟨2, 2⟩, ⟨3, 2⟩], by decide⟩],
    by decide +kernel, by decide⟩

end Outline

end Linework
