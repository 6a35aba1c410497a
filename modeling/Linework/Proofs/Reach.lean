import Linework.Outline
import Linework.Proofs.Loop
import Linework.Proofs.Rearranged
import Linework.Strand

/-! What the tracing of a strand reaches.

A walk through a set sets out from its first line end in one direction, ends at every line end and
goes on in all directions from any other cell. What it reaches need not be the whole set: two lines
that only lie beside each other are one set, but no walk goes from one to the other.
-/

set_option autoImplicit false

namespace Linework

namespace Grid

variable {g : Grid} {s : CellSet} {c n : Cell} {next : List Cell}

theorem runs_of_corner {t : Turn} {w : Window} {p : Pattern}
    (corner : p = .sharpCorner t ∨ p = .roundCorner t) (fits : p.accepts w) {d : Direction}
    (arm : d ∈ t.arms) : Glyph.runs d (w.side d) := by
  rcases corner with rfl | rfl
  all_goals
    cases t <;>
      simp only [Pattern.sharpCorner, Pattern.roundCorner, Pattern.accepts, Square.accepts,
        Slot.accepts, Bool.and_eq_true] at fits <;>
      simp only [Turn.arms, List.mem_cons, List.not_mem_nil, or_false] at arm <;>
      rcases arm with rfl | rfl <;>
      simp_all [Glyph.runs, Gate.admits, Direction.isHorizontal, Square.side]

theorem runs_of_corner? {w : Window} {corner : Corner} (found : w.corner? = some corner)
    {d : Direction} (arm : d ∈ corner.turn.arms) : Glyph.runs d (w.side d) := by
  rw [Window.corner?, List.findSome?_eq_some_iff] at found
  obtain ⟨before, t, after, -, fits, -⟩ := found
  split at fits
  · cases fits
    exact runs_of_corner (.inl rfl) ‹_› arm
  · split at fits
    · cases fits
      exact runs_of_corner (.inr rfl) ‹_› arm
    · cases fits

theorem runs_of_crossing? {w : Window} {a : Axis} (found : w.crossing? = some a)
    {d : Direction} (arm : d ∈ a.arms) : Glyph.runs d (w.side d) := by
  have accepts : (Pattern.crossing a).accepts w := by
    unfold Window.crossing? at found
    split at found
    · cases found
      assumption
    · split at found
      · cases found
        assumption
      · cases found
  cases a <;>
    simp only [Pattern.crossing, Pattern.accepts, Square.accepts, Slot.accepts,
      Bool.and_eq_true] at accepts <;>
    simp only [Axis.arms, List.mem_cons, List.not_mem_nil, or_false] at arm <;>
    rcases arm with rfl | rfl <;>
    simp_all [Glyph.runs, Direction.isHorizontal, Square.side]

theorem not_empty_of_continuations? (found : g.continuations? c = some next) (mem : n ∈ next) :
    ¬ g.Empty n := by
  intro empty
  have notRuns (d : Direction) := not_runs_of_empty (d := d) empty
  have notInked := not_isInked_of_empty empty
  obtain ⟨r, role, on⟩ := runsOn_of_continuations? found
  have shows := Window.shows_of_role? role
  cases on with
  | junction j =>
    obtain ⟨d, rfl, runs⟩ := mem_openNeighbors.1 mem
    simp [notRuns] at runs
  | corner k =>
    obtain ⟨d, arm, rfl⟩ := List.mem_map.1 mem
    have runs := runs_of_corner? shows arm
    simp [notRuns] at runs
  | line a => simp [notInked] at mem
  | stub =>
    rw [Option.mem_toList] at mem
    have inked := List.find?_some mem
    simp [notInked] at inked
  | crossing a =>
    obtain ⟨d, arm, rfl⟩ := List.mem_map.1 mem
    have runs := runs_of_crossing? shows arm
    simp [notRuns] at runs

theorem exists_step_of_continuations? (found : g.continuations? c = some next) (mem : n ∈ next) :
    ∃ d, n = c.step d := by
  obtain ⟨r, -, on⟩ := runsOn_of_continuations? found
  cases on with
  | junction j =>
    obtain ⟨d, same, -⟩ := mem_openNeighbors.1 mem
    exact ⟨d, same⟩
  | corner k =>
    obtain ⟨d, -, rfl⟩ := List.mem_map.1 mem
    exact ⟨d, rfl⟩
  | line a =>
    obtain ⟨d, -, rfl⟩ := List.mem_map.1 (List.mem_filter.1 mem).1
    exact ⟨d, rfl⟩
  | stub =>
    have near := List.mem_of_find?_eq_some (Option.mem_toList.1 mem)
    simp only [List.mem_cons, List.not_mem_nil, or_false] at near
    rcases near with rfl | rfl | rfl | rfl
    · exact ⟨.east, rfl⟩
    · exact ⟨.west, rfl⟩
    · exact ⟨.north, rfl⟩
    · exact ⟨.south, rfl⟩
  | crossing a =>
    obtain ⟨d, -, rfl⟩ := List.mem_map.1 mem
    exact ⟨d, rfl⟩

/-- Lines among the cells of a set alone stay in the set. -/
theorem mem_of_continuations? (found : (g.isolate s).continuations? c = some next)
    (mem : n ∈ next) : n ∈ s := by
  by_contra out
  exact not_empty_of_continuations? found mem (empty_isolate_of_not_mem out)

end Grid

namespace Segment

theorem cells_connectEnds (g alone : Grid) (seg : Segment) :
    (connectEnds g alone seg).cells = seg.cells := by
  unfold connectEnds
  dsimp only
  split <;> rfl

theorem length_vertices_connectEnds (g alone : Grid) (seg : Segment) :
    (connectEnds g alone seg).vertices.length = seg.vertices.length := by
  unfold connectEnds
  dsimp only
  split
  · simp only [List.length_modify, List.length_modifyHead]
  · rfl

end Segment

namespace Strand

open Grid

/-- Whether a walk through a set goes on from one cell to another. At line ends it does not, except
that it sets out from the first of them, to one neighbor only. -/
def Onward (alone : Grid) (s : CellSet) (c n : Cell) : Prop :=
  ∃ next, alone.continuations? c = some next ∧
    if alone.isLineEnd c then s.toList.find? alone.isLineEnd = some c ∧ next.head? = some n
    else n ∈ next

/-- The cells that a walk through a set comes to, its start included. -/
inductive Reached (alone : Grid) (s : CellSet) : Cell → Prop where
  | start {root n : Cell} : s.toList.find? alone.isLineEnd = some root →
      Onward alone s root n → Reached alone s root
  | step {c n : Cell} : Reached alone s c → Onward alone s c n → Reached alone s n

def Ruled (alone : Grid) (c : Cell) : Prop :=
  alone.isLineEnd c ∨ (alone.continuations? c).isSome

/-- A search under way: all cells walked are reached and have a rule, and what they go on to is
either walked or at hand. -/
structure Searching (alone : Grid) (s : CellSet) (fresh : List Cell)
    (pending : List (Cell × Cell)) : Prop where
  nodup : fresh.Nodup
  inside : ∀ c ∈ fresh, c ∈ s
  begun : ∀ root, s.toList.find? alone.isLineEnd = some root → root ∉ fresh
  sound : ∀ c ∈ s, c ∉ fresh → Reached alone s c
  ruled : ∀ c ∈ s, c ∉ fresh → Ruled alone c
  waiting : ∀ b ∈ pending, Reached alone s b.1 ∧ b.2 ∈ s ∧ b.2 ∉ fresh
  closed : ∀ c ∈ s, c ∉ fresh → ∀ n, Onward alone s c n → n ∈ fresh → ∃ p, (n, p) ∈ pending

variable {g alone : Grid} {s : CellSet} {c n current previous : Cell} {fresh : List Cell}
  {pending rest : List (Cell × Cell)}

theorem mem_of_onward (onward : Onward (g.isolate s) s c n) : n ∈ s := by
  obtain ⟨next, found, goes⟩ := onward
  split at goes
  · exact mem_of_continuations? found (List.mem_of_mem_head? goes.2)
  · exact mem_of_continuations? found goes

theorem mem_of_reached (reached : Reached (g.isolate s) s c) : c ∈ s := by
  cases reached with
  | start found _ => exact List.mem_of_find?_eq_some found
  | step _ onward => exact mem_of_onward onward

theorem follow_ok {next : List Cell} {blocked : Option Cell}
    (followed : alone.follow c blocked = .ok next) :
    ∃ all, alone.continuations? c = some all ∧ ∀ n, n ∈ next ↔ n ∈ all ∧ blocked ≠ some n := by
  unfold Grid.follow at followed
  split at followed
  · cases followed
  · rename_i all found
    cases followed
    exact ⟨all, found, fun n => by rw [List.mem_filter, bne_iff_ne]⟩

theorem follow_error {fault : Grid.Fault} {blocked : Option Cell}
    (failed : alone.follow c blocked = .error fault) : alone.continuations? c = none := by
  unfold Grid.follow at failed
  split at failed
  · assumption
  · cases failed

namespace Searching

theorem drop (search : Searching alone s fresh ((current, previous) :: rest))
    (met : current ∉ fresh) : Searching alone s fresh rest where
  __ := search
  waiting b mem := search.waiting b (List.mem_cons_of_mem _ mem)
  closed c mem old n onward left := by
    obtain ⟨p, waits⟩ := search.closed c mem old n onward left
    refine ⟨p, (List.mem_cons.1 waits).resolve_left fun same => met ?_⟩
    rwa [← (Prod.mk.inj same).1]

theorem visit (search : Searching alone s fresh ((current, previous) :: rest))
    (here : current ∈ fresh) (rule : Ruled alone current) (branches : List (Cell × Cell))
    (within : ∀ b ∈ branches, Onward alone s current b.1 ∧ b.2 = current)
    (all : ∀ n, Onward alone s current n → n ≠ previous → n ∈ fresh.erase current →
      ∃ p, (n, p) ∈ branches) :
    Searching alone s (fresh.erase current) (branches ++ rest) := by
  have erased (n : Cell) : n ∈ fresh.erase current ↔ n ≠ current ∧ n ∈ fresh :=
    search.nodup.mem_erase_iff
  obtain ⟨reached, -, behind⟩ := search.waiting _ (List.mem_cons_self ..)
  refine ⟨search.nodup.erase _, fun c left => search.inside c ((erased c).1 left).2,
    fun root found left => search.begun root found ((erased root).1 left).2, ?sound, ?ruled,
    ?waiting, ?closed⟩
  case sound =>
    intro c mem old
    by_cases same : c = current
    · exact same ▸ reached
    · exact search.sound c mem fun left => old ((erased c).2 ⟨same, left⟩)
  case ruled =>
    intro c mem old
    by_cases same : c = current
    · exact same ▸ rule
    · exact search.ruled c mem fun left => old ((erased c).2 ⟨same, left⟩)
  case waiting =>
    intro b mem
    rcases List.mem_append.1 mem with new | old
    · obtain ⟨onward, source⟩ := within b new
      exact ⟨reached.step onward, source ▸ search.inside _ here,
        fun left => ((erased _).1 left).1 source⟩
    · obtain ⟨reached, inside, behind⟩ := search.waiting b (List.mem_cons_of_mem _ old)
      exact ⟨reached, inside, fun left => behind ((erased _).1 left).2⟩
  case closed =>
    intro c mem old n onward left
    obtain ⟨apart, freshN⟩ := (erased n).1 left
    by_cases same : c = current
    · subst same
      -- The way back need not wait, as `previous` is fresh no more.
      have forward : n ≠ previous := fun back => behind (back ▸ freshN)
      obtain ⟨p, waits⟩ := all n onward forward left
      exact ⟨p, List.mem_append_left _ waits⟩
    · have met : c ∉ fresh := fun freshC => old ((erased c).2 ⟨same, freshC⟩)
      obtain ⟨p, waits⟩ := search.closed c mem met n onward freshN
      refine ⟨p, List.mem_append_right _ ((List.mem_cons.1 waits).resolve_left fun same => ?_)⟩
      exact apart (Prod.mk.inj same).1

theorem visit_end (search : Searching alone s fresh ((current, previous) :: rest))
    (here : current ∈ fresh) (finish : alone.isLineEnd current) :
    Searching alone s (fresh.erase current) rest := by
  refine search.visit here (.inl finish) [] (fun b mem => by cases mem) ?_
  -- Only the first line end is left again, and that one is not fresh.
  rintro n ⟨next, found, goes⟩ _ _
  rw [if_pos finish] at goes
  exact absurd here (search.begun current goes.1)

theorem visit_next (search : Searching alone s fresh ((current, previous) :: rest))
    (here : current ∈ fresh) (goes : alone.isLineEnd current = false) {next : List Cell}
    (followed : alone.follow current (some previous) = .ok next) (branches : List (Cell × Cell))
    (within : ∀ b ∈ branches, b.1 ∈ next ∧ b.2 = current)
    (all : ∀ n ∈ next, n ∈ fresh.erase current → ∃ p, (n, p) ∈ branches) :
    Searching alone s (fresh.erase current) (branches ++ rest) := by
  obtain ⟨around, found, mem⟩ := follow_ok followed
  refine search.visit here (.inr (by rw [found]; rfl)) branches (fun b new => ?_) ?_
  · obtain ⟨onward, source⟩ := within b new
    refine ⟨⟨around, found, ?_⟩, source⟩
    rw [goes]
    exact ((mem b.1).1 onward).1
  · rintro n ⟨other, same, onward⟩ forward left
    cases found.symm.trans same
    simp only [goes, Bool.false_eq_true, if_false] at onward
    exact all n ((mem n).2 ⟨onward, fun back => forward (Option.some.inj back).symm⟩) left

/-- A search with nothing left at hand has met all that can be reached. -/
theorem reached_iff (search : Searching (g.isolate s) s fresh []) (c : Cell) :
    Reached (g.isolate s) s c ↔ c ∈ s ∧ c ∉ fresh := by
  constructor
  · intro reached
    refine ⟨mem_of_reached reached, ?_⟩
    induction reached with
    | start found _ => exact search.begun _ found
    | step before onward ih =>
      intro left
      obtain ⟨p, waits⟩ := search.closed _ (mem_of_reached before) ih _ onward left
      cases waits
  · rintro ⟨mem, met⟩
    exact search.sound c mem met

end Searching

structure Extends (s : CellSet) (fresh cells fresh' cells' : List Cell) : Prop where
  fewer : ∀ c ∈ fresh', c ∈ fresh
  kept : ∀ c ∈ cells, c ∈ cells'
  met : ∀ c ∈ cells', c ∈ cells ∨ c ∈ s ∧ c ∉ fresh'
  new : ∀ c ∈ fresh, c ∈ fresh' ∨ c ∈ cells'

variable {roundAll : Bool} {segment : Segment}

theorem Extends.cons {cells : List Cell} (nodup : fresh.Nodup) (mem : current ∈ s) :
    Extends s fresh cells (fresh.erase current) (current :: cells) where
  fewer c left := List.mem_of_mem_erase left
  kept c old := List.mem_cons_of_mem _ old
  met c mem' := by
    rcases List.mem_cons.1 mem' with rfl | old
    · exact .inr ⟨mem, fun left => (nodup.mem_erase_iff.1 left).1 rfl⟩
    · exact .inl old
  new c left := by
    by_cases same : c = current
    · exact .inr (same ▸ List.mem_cons_self ..)
    · exact .inl (nodup.mem_erase_iff.2 ⟨same, left⟩)

theorem Extends.trans {fresh' fresh'' cells cells' cells'' : List Cell}
    (first : Extends s fresh cells fresh' cells') (second : Extends s fresh' cells' fresh'' cells'') :
    Extends s fresh cells fresh'' cells'' where
  fewer c left := first.fewer c (second.fewer c left)
  kept c old := second.kept c (first.kept c old)
  met c mem := by
    rcases second.met c mem with mem | mem
    · exact (first.met c mem).imp_right fun mem => ⟨mem.1, fun left => mem.2 (second.fewer c left)⟩
    · exact .inr mem
  new c left := by
    rcases first.new c left with left | mem
    · exact second.new c left
    · exact .inr (second.kept c mem)

theorem grow_ok {grown : Segment.Growth}
    (search : Searching alone s fresh ((current, previous) :: rest))
    (grows : Segment.grow alone roundAll s fresh segment previous current = .ok grown) :
    Searching alone s grown.fresh (grown.branches ++ rest) ∧
      Extends s fresh segment.cells grown.fresh grown.segment.cells := by
  -- Along the segment: each cell entered is visited, and what it opens is walked next or waits.
  fun_induction Segment.grow alone roundAll s fresh segment previous current with
  | case1 fresh segment previous current vertices here left grown' finish =>
    cases grows
    exact ⟨search.visit_end here finish, .cons search.nodup (search.inside _ here)⟩
  | case2 => cases grows
  | case3 fresh segment previous current vertices here left grown' goes next followed ih =>
    have added : Extends s fresh segment.cells (fresh.erase current) (current :: segment.cells) :=
      .cons search.nodup (search.inside _ here)
    have searching := search.visit_next here (eq_false_of_ne_true goes) followed [(next, current)]
      (by simp) (fun n mem _ => ⟨current, by simpa using mem⟩)
    obtain ⟨found, rest⟩ := ih searching grows
    exact ⟨found, added.trans rest⟩
  | case4 fresh segment previous current vertices here left grown' goes next many followed unwalked =>
    cases grows
    refine ⟨search.visit_next here (eq_false_of_ne_true goes) followed _ ?_ ?_,
      .cons search.nodup (search.inside _ here)⟩
    · intro b new
      obtain ⟨n, kept, rfl⟩ := List.mem_map.1 new
      exact ⟨(List.mem_filter.1 kept).1, rfl⟩
    · intro n mem left
      exact ⟨current, List.mem_map_of_mem (List.mem_filter.2 ⟨mem, decide_eq_true (.inl left)⟩)⟩
  | case5 fresh segment previous current vertices old inside =>
    cases grows
    refine ⟨search.drop old, fun _ left => left, fun c mem => List.mem_cons_of_mem _ mem, ?_,
      fun _ left => .inl left⟩
    intro c mem
    rcases List.mem_cons.1 mem with rfl | mem
    · exact .inr ⟨inside, old⟩
    · exact .inl mem
  | case6 => cases grows

/-- A segment cannot grow only where it comes to a cell without a rule. -/
theorem grow_error {fault : Grid.Fault}
    (search : Searching (g.isolate s) s fresh ((current, previous) :: rest))
    (fails : Segment.grow (g.isolate s) roundAll s fresh segment previous current = .error fault) :
    ∃ c, Reached (g.isolate s) s c ∧ ¬ Ruled (g.isolate s) c := by
  fun_induction Segment.grow (g.isolate s) roundAll s fresh segment previous current with
  | case1 => cases fails
  | case2 fresh segment previous current here goes fault failed =>
    refine ⟨current, (search.waiting _ (List.mem_cons_self ..)).1, fun ruled => ?_⟩
    have lost := follow_error failed
    rcases ruled with finish | rule
    · exact goes finish
    · simp [lost] at rule
  | case3 fresh segment previous current vertices here left grown' goes next followed ih =>
    exact ih (search.visit_next here (eq_false_of_ne_true goes) followed [(next, current)]
      (by simp) (fun n mem _ => ⟨current, by simpa using mem⟩)) fails
  | case4 => cases fails
  | case5 => cases fails
  | case6 fresh segment previous current old outside =>
    exact absurd (mem_of_reached (search.waiting _ (List.mem_cons_self ..)).1) outside

structure Covers (s : CellSet) (fresh : List Cell) (pending : List (Cell × Cell))
    (walked : List Segment) : Prop where
  met : ∀ seg ∈ walked, ∀ c ∈ seg.cells, c ∈ s ∧ c ∉ fresh
  all : ∀ c ∈ s, c ∉ fresh → (∃ seg ∈ walked, c ∈ seg.cells) ∨
    ∃ n ∈ fresh, pending.head? = some (n, c)

theorem walkAll_cons {grown : Segment.Growth} {walked : List Segment} (here : current ∈ fresh)
    (grows : Segment.grow alone roundAll s fresh (Segment.start alone roundAll previous) previous
      current = .ok grown) :
    walkAll alone roundAll s fresh ((current, previous) :: rest) walked
      = walkAll alone roundAll s grown.fresh (grown.branches ++ rest)
          (grown.segment.reverse :: walked) := by
  rw [walkAll, dif_pos here]
  split
  · rename_i failed
    cases grows.symm.trans failed
  · rename_i found
    cases grows.symm.trans found
    rfl

/-- Walks that succeed have walked all that can be reached, and found a rule for it. -/
theorem walkAll_ok {walked segs : List Segment}
    (search : Searching (g.isolate s) s fresh pending) (covers : Covers s fresh pending walked)
    (walks : walkAll (g.isolate s) roundAll s fresh pending walked = .ok segs) (c : Cell) :
    ((∃ seg ∈ segs, c ∈ seg.cells) ↔ Reached (g.isolate s) s c) ∧
      (Reached (g.isolate s) s c → Ruled (g.isolate s) c) := by
  fun_induction walkAll (g.isolate s) roundAll s fresh pending walked with
  | case1 fresh walked =>
    cases walks
    rw [search.reached_iff]
    refine ⟨?_, fun met => search.ruled c met.1 met.2⟩
    constructor
    · rintro ⟨seg, mem, cell⟩
      exact covers.met seg (List.mem_reverse.1 mem) c cell
    · rintro ⟨mem, old⟩
      -- With nothing pending no first cell is left for a segment to come.
      rcases covers.all c mem old with ⟨seg, done, cell⟩ | ⟨n, -, none⟩
      · exact ⟨seg, List.mem_reverse.2 done, cell⟩
      · cases none
  | case2 => cases walks
  | case3 fresh walked current previous rest here grown grows ih =>
    obtain ⟨searching, added⟩ := grow_ok search grows
    refine ih searching ⟨?_, ?_⟩ walks
    · intro seg mem c cell
      rcases List.mem_cons.1 mem with rfl | mem
      · rcases added.met c (List.mem_reverse.1 cell) with start | new
        · obtain rfl := List.mem_singleton.1 start
          obtain ⟨-, inside, behind⟩ := search.waiting _ (List.mem_cons_self ..)
          exact ⟨inside, fun left => behind (added.fewer _ left)⟩
        · exact new
      · obtain ⟨inside, old⟩ := covers.met seg mem c cell
        exact ⟨inside, fun left => old (added.fewer c left)⟩
    · intro c mem old
      refine .inl ?_
      by_cases left : c ∈ fresh
      · exact ⟨_, List.mem_cons_self .., List.mem_reverse.2 ((added.new c left).resolve_left old)⟩
      · rcases covers.all c mem left with ⟨seg, done, cell⟩ | ⟨n, -, first⟩
        · exact ⟨seg, List.mem_cons_of_mem _ done, cell⟩
        · cases first
          exact ⟨_, List.mem_cons_self .., List.mem_reverse.2 (added.kept _ (List.mem_cons_self ..))⟩
  | case4 fresh walked current previous rest old inside ih =>
    refine ih (search.drop old) ⟨covers.met, fun c mem met => ?_⟩ walks
    rcases covers.all c mem met with done | ⟨n, left, first⟩
    · exact .inl done
    · cases first
      exact absurd left old
  | case5 => cases walks

theorem walkAll_error {walked : List Segment} {fault : Grid.Fault}
    (search : Searching (g.isolate s) s fresh pending)
    (fails : walkAll (g.isolate s) roundAll s fresh pending walked = .error fault) :
    ∃ c, Reached (g.isolate s) s c ∧ ¬ Ruled (g.isolate s) c := by
  fun_induction walkAll (g.isolate s) roundAll s fresh pending walked with
  | case1 => cases fails
  | case2 fresh walked current previous rest here fault grows => exact grow_error search grows
  | case3 fresh walked current previous rest here grown grows ih =>
    exact ih (grow_ok search grows).1 fails
  | case4 fresh walked current previous rest old inside ih => exact ih (search.drop old) fails
  | case5 fresh walked current previous rest old outside =>
    exact absurd (mem_of_reached (search.waiting _ (List.mem_cons_self ..)).1) outside

theorem exists_start (reached : Reached alone s c) :
    ∃ root n, s.toList.find? alone.isLineEnd = some root ∧ Onward alone s root n := by
  induction reached with
  | start found onward => exact ⟨_, _, found, onward⟩
  | step _ _ ih => exact ih

theorem head?_of_onward {root : Cell} {next : List Cell}
    (found : s.toList.find? alone.isLineEnd = some root)
    (goes : alone.continuations? root = some next) :
    Onward alone s root n ↔ next.head? = some n := by
  have finish := List.find?_some found
  constructor
  · rintro ⟨other, same, onward⟩
    cases goes.symm.trans same
    rw [if_pos finish] at onward
    exact onward.2
  · intro first
    exact ⟨next, goes, by rw [if_pos finish]; exact ⟨found, first⟩⟩

theorem searching_start {root first : Cell} {others : List Cell}
    (found : s.toList.find? (g.isolate s).isLineEnd = some root)
    (goes : (g.isolate s).continuations? root = some (first :: others)) :
    Searching (g.isolate s) s (s.toList.erase root) [(first, root)] := by
  have erased (n : Cell) : n ∈ s.toList.erase root ↔ n ≠ root ∧ n ∈ s :=
    s.nodup.mem_erase_iff
  -- Nothing but the root is entered at first.
  have only (c : Cell) (mem : c ∈ s) (old : c ∉ s.toList.erase root) : c = root := by
    by_contra apart
    exact old ((erased c).2 ⟨apart, mem⟩)
  have onward : Onward (g.isolate s) s root first := (head?_of_onward found goes).2 rfl
  refine ⟨s.nodup.erase _, fun c left => ((erased c).1 left).2, fun other same left => ?_,
    ?_, ?_, ?_, ?_⟩
  · cases found.symm.trans same
    exact ((erased root).1 left).1 rfl
  · intro c mem old
    exact only c mem old ▸ .start found onward
  · intro c mem old
    exact only c mem old ▸ .inl (List.find?_some found)
  · intro b mem
    obtain rfl := List.mem_singleton.1 mem
    exact ⟨.step (.start found onward) onward, List.mem_of_find?_eq_some found,
      fun left => ((erased root).1 left).1 rfl⟩
  · intro c mem old n ahead _
    obtain rfl := only c mem old
    cases (head?_of_onward found goes).1 ahead
    exact ⟨c, List.mem_singleton_self _⟩

theorem segments_ok {segs : List Segment}
    (walks : segments (g.isolate s) roundAll s = .ok segs) (c : Cell) :
    ((∃ seg ∈ segs, c ∈ seg.cells) ↔ Reached (g.isolate s) s c) ∧
      (Reached (g.isolate s) s c → Ruled (g.isolate s) c) := by
  -- A strand without a way out of its first line end has no cell reached, nor a segment.
  have nowhere (stuck : ∀ root n, s.toList.find? (g.isolate s).isLineEnd = some root →
      ¬ Onward (g.isolate s) s root n) : ¬ Reached (g.isolate s) s c := fun reached => by
    obtain ⟨root, n, found, onward⟩ := exists_start reached
    exact stuck root n found onward
  unfold segments at walks
  split at walks
  · rename_i endless
    cases walks
    have unreached := nowhere fun root n found => by simp [endless] at found
    simp [unreached]
  · rename_i root found
    split at walks
    · cases walks
    · rename_i followed
      cases walks
      have goes := follow_none_iff.1 followed
      have unreached := nowhere fun other n same onward => by
        cases found.symm.trans same
        cases (head?_of_onward found goes).1 onward
      simp [unreached]
    · rename_i first others followed
      have goes := follow_none_iff.1 followed
      have search := searching_start found goes
      have onward := (head?_of_onward found goes).2 rfl
      obtain ⟨d, step⟩ := exists_step_of_continuations? goes (List.mem_cons_self ..)
      refine walkAll_ok search ⟨fun seg mem => ?_, fun c mem old => .inr ⟨first, ?_, ?_⟩⟩ walks c
      · cases mem
      · exact s.nodup.mem_erase_iff.2 ⟨step ▸ root.step_ne d, mem_of_onward onward⟩
      · have same : c = root := by
          by_contra apart
          exact old (s.nodup.mem_erase_iff.2 ⟨apart, mem⟩)
        rw [same]
        rfl

theorem segments_error {fault : Grid.Fault}
    (fails : segments (g.isolate s) roundAll s = .error fault) :
    ∃ c ∈ s, ¬ (Reached (g.isolate s) s c ∧ Ruled (g.isolate s) c) := by
  unfold segments at fails
  split at fails
  · cases fails
  · rename_i root found
    split at fails
    · rename_i failed
      have lost := follow_error failed
      refine ⟨root, List.mem_of_find?_eq_some found, fun both => ?_⟩
      obtain ⟨other, n, same, next, goes, -⟩ := exists_start both.1
      cases found.symm.trans same
      cases lost.symm.trans goes
    · cases fails
    · rename_i first others followed
      have search := searching_start found (follow_none_iff.1 followed)
      obtain ⟨c, reached, unruled⟩ := walkAll_error search fails
      exact ⟨c, mem_of_reached reached, fun both => unruled both.2⟩

theorem trace_eq (g : Grid) (roundAll : Bool) (s : CellSet) :
    trace g roundAll s = (segments (g.isolate s) roundAll s).map fun found =>
      found.map fun seg =>
        Segment.connectEnds g (g.isolate s) { seg with dashed := found.any (·.dashed) } := by
  rw [trace]
  cases segments (g.isolate s) roundAll s <;> rfl

def Walked (g : Grid) (roundAll : Bool) (s : CellSet) : Prop :=
  ∃ segs, trace g roundAll s = .ok segs ∧ ∀ c ∈ s, ∃ seg ∈ segs, c ∈ seg.cells

/-- A set is walked to its last cell just if every cell of it is reached and has a rule. Whatever is
traced, the cells walked are those that are reached. -/
theorem walked_iff (g : Grid) (roundAll : Bool) (s : CellSet) :
    (Walked g roundAll s ↔ ∀ c ∈ s, Reached (g.isolate s) s c ∧ Ruled (g.isolate s) c) ∧
    ∀ segs, trace g roundAll s = .ok segs →
      ∀ c, (∃ seg ∈ segs, c ∈ seg.cells) ↔ Reached (g.isolate s) s c := by
  unfold Walked
  rw [trace_eq]
  cases found : segments (g.isolate s) roundAll s with
  | error fault =>
    obtain ⟨c, mem, stuck⟩ := segments_error found
    refine ⟨⟨fun traced => ?_, fun all => absurd (all c mem) stuck⟩, fun segs traced => ?_⟩
    · obtain ⟨segs, traced, -⟩ := traced
      cases traced
    · cases traced
  | ok segs =>
    have walks := segments_ok found
    -- Anchoring the ends of a segment keeps its cells.
    have cells (c : Cell) : (∃ seg ∈ segs.map fun seg => Segment.connectEnds g (g.isolate s)
        { seg with dashed := segs.any (·.dashed) }, c ∈ seg.cells) ↔
        Reached (g.isolate s) s c := by
      rw [← (walks c).1]
      simp [Segment.cells_connectEnds]
    refine ⟨⟨fun traced c mem => ?_, fun all => ⟨_, rfl, fun c mem => (cells c).2 (all c mem).1⟩⟩,
      fun other traced c => ?_⟩
    · obtain ⟨other, traced, all⟩ := traced
      cases traced
      have reached := (cells c).1 (all c mem)
      exact ⟨reached, (walks c).2 reached⟩
    · cases traced
      exact cells c

def twinLines : Grid := ⟨5, 2, #['+', '+', '-', '-', ' ', '+', '+', '-', '-', ' '], rfl⟩

def twinAll : CellSet :=
  ⟨[⟨0, 0⟩, ⟨1, 0⟩, ⟨2, 0⟩, ⟨3, 0⟩, ⟨1, 1⟩, ⟨2, 1⟩, ⟨3, 1⟩, ⟨0, 1⟩], by decide⟩

def twinBox : CellSet := ⟨[⟨0, 0⟩, ⟨1, 0⟩, ⟨1, 1⟩, ⟨0, 1⟩], by decide⟩

def twinEnds : CellSet := ⟨[⟨2, 0⟩, ⟨3, 1⟩, ⟨2, 1⟩, ⟨3, 0⟩], by decide⟩

deriving instance DecidableEq for Segment.Growth

def upperTwin : Segment :=
  ⟨[⟨2, 0⟩, ⟨3, 0⟩], [⟨⟨2, 0⟩, false, none⟩, ⟨⟨3, 0⟩, false, none⟩], false⟩

theorem all_twinLines : Outline.all twinLines = .ok [twinAll, twinBox] := by
  decide +kernel

theorem form_twinAll : Outline.form twinLines twinAll = .mixed :=
  Outline.form_eq_mixed ⟨3, 0⟩ .branch [⟨5, 5⟩, ⟨6, 5⟩, ⟨5, 6⟩, ⟨6, 6⟩] (by decide)
    (by decide +kernel) (by decide +kernel) (by decide +kernel) fun _ => Circuit.Ending.noConfusion

theorem form_twinBox : Outline.form twinLines twinBox = .loop :=
  Layout.form_of_ring (by decide)
    (.of_isChain (fun _ => Iff.rfl) (by decide +kernel) (by decide +kernel))

theorem form_twinEnds : Outline.form twinLines twinEnds = .strand := by decide +kernel

theorem strands_twinLines :
    (Reduction.ofOutlines twinLines [twinAll, twinBox]).strands = [twinEnds] := by
  have once : CellSet.distinct [twinAll, twinBox] = [twinAll, twinBox] := by decide
  have loops : Reduction.ofForm twinLines .loop [twinAll, twinBox] = [twinBox] := by
    simp [Reduction.ofForm, form_twinAll, form_twinBox]
  have left : Outline.form twinLines (twinAll.diff twinBox) = .strand :=
    (Outline.form_eq_strand_congr (by decide)).2 form_twinEnds
  have whole : (twinAll.diff twinBox).components = [twinEnds] := by decide +kernel
  have all : Reduction.replacement twinLines [twinBox] twinAll = ([], [twinEnds]) := by
    rw [Reduction.replacement_of_mixed form_twinAll rfl]
    simp [Reduction.subtract, left, whole]
  have box : Reduction.replacement twinLines [twinBox] twinBox = ([twinBox], []) :=
    Reduction.replacement_of_not_mixed (by rw [form_twinBox]; decide)
  have resolved : Reduction.resolved twinLines [twinAll, twinBox] = [twinBox, twinEnds] := by
    rw [Reduction.resolved, once, Reduction.resolve_eq, loops, Reduction.resolveAmong]
    simp only [List.flatMap_cons, List.flatMap_nil, all, box]
    decide
  rw [Reduction.ofOutlines_eq, resolved]
  simp [Reduction.ofForm, form_twinBox, form_twinEnds]

theorem segments_twinEnds :
    segments (twinLines.isolate twinEnds) false twinEnds = .ok [upperTwin] := by
  have found : twinEnds.toList.find? (twinLines.isolate twinEnds).isLineEnd = some ⟨2, 0⟩ := by
    decide
  have followed : (twinLines.isolate twinEnds).follow ⟨2, 0⟩ none = .ok [⟨3, 0⟩] := by decide
  have grows : Segment.grow (twinLines.isolate twinEnds) false twinEnds
      (twinEnds.toList.erase ⟨2, 0⟩) (Segment.start (twinLines.isolate twinEnds) false ⟨2, 0⟩)
      ⟨2, 0⟩ ⟨3, 0⟩ = .ok ⟨upperTwin.reverse, [⟨3, 1⟩, ⟨2, 1⟩], []⟩ := by decide +kernel
  rw [segments]
  simp only [found, followed]
  rw [walkAll_cons (by decide) grows, List.nil_append, walkAll]
  rfl

/-- Two lines that lie side by side are one strand. Only the upper one is walked, from its line end
to the other, for neither line goes on to the other. -/
theorem twinEnds_not_walked :
    Outline.all twinLines = .ok [twinAll, twinBox] ∧
      (Reduction.ofOutlines twinLines [twinAll, twinBox]).strands = [twinEnds] ∧
      2 ≤ twinEnds.size ∧
      (∃ seg, trace twinLines false twinEnds = .ok [seg] ∧ seg.cells = [⟨2, 0⟩, ⟨3, 0⟩]) ∧
      ¬ Walked twinLines false twinEnds := by
  have traced : trace twinLines false twinEnds
      = .ok [Segment.connectEnds twinLines (twinLines.isolate twinEnds) upperTwin] := by
    rw [trace_eq, segments_twinEnds]
    rfl
  refine ⟨all_twinLines, strands_twinLines, by decide, ⟨_, traced, ?_⟩, ?_⟩
  · rw [Segment.cells_connectEnds]
    rfl
  · rintro ⟨segs, same, walked⟩
    cases traced.symm.trans same
    obtain ⟨seg, mem, cell⟩ := walked ⟨2, 1⟩ (by decide)
    rw [List.mem_singleton.1 mem, Segment.cells_connectEnds] at cell
    revert cell
    decide

end Strand

end Linework
