import Linework.Outline
import Linework.Proofs.Piece
import Linework.Proofs.Rearranged

/-! The gaps of a set of cells, and the one that is filled with it.

A gap is all that is connected through edges without touching the set. Around the extent of the set
one more row or column is enough to see whether a gap ends there: it then reaches the margin, and a
gap that does not reach the margin is the same on the canvas as in the plane.
-/

set_option autoImplicit false

namespace Linework

theorem Grid.find?_cells {g : Grid} {p : Cell → Bool} {c : Cell}
    (found : g.cells.find? p = some c) : c ∈ g ∧ p c ∧ ∀ q ∈ g, p q → q = c ∨ c.Before q := by
  obtain ⟨fits, before, after, cut, passed⟩ := List.find?_eq_some_iff_append.1 found
  have mem : c ∈ g.cells := by simp [cut]
  refine ⟨Grid.mem_cells.1 mem, fits, fun q inside fits' => ?_⟩
  have ordered := g.pairwise_cells
  rw [cut] at ordered
  have place := Grid.mem_cells.2 inside
  rw [cut, List.mem_append, List.mem_cons] at place
  rcases place with early | same | late
  · have skipped := passed q early
    simp [fits'] at skipped
  · exact .inl same
  · exact .inr (List.rel_of_pairwise_cons (List.pairwise_append.1 ordered).2.1 late)

namespace CellSet

/-- The cells outside a set with an edge between neighbors; its components are the gaps of the set. -/
def gaps (s : CellSet) : SimpleGraph Cell where
  Adj c n := (c ∉ s ∧ n ∉ s) ∧ n ∈ c.orthogonal
  symm := ⟨fun _ _ ⟨outside, near⟩ => ⟨outside.symm, Cell.mem_orthogonal_comm.1 near⟩⟩
  loopless := ⟨fun c ⟨_, near⟩ => c.not_mem_orthogonal_self near⟩

def IsWall (s : CellSet) (c : Cell) : Prop := c ∈ s ∧ c.east ∉ s ∧ c.west ∉ s

def FirstWall (s : CellSet) (c : Cell) : Prop := s.IsWall c ∧ ∀ n, s.IsWall n → n = c ∨ c.Before n

/-- Whether a cell lies in a gap that does not go on beyond the extent of the set. -/
def Encloses (s : CellSet) (c : Cell) : Prop :=
  c ∉ s ∧ ∀ e, s.extent? = some e → ∀ n, s.gaps.Reachable c n → e.Spans n

def Extent.Frames (e : Extent) (c : Cell) : Prop :=
  (e.least.x ≤ c.x + 1 ∧ c.x ≤ e.greatest.x + 1) ∧ e.least.y ≤ c.y + 1 ∧ c.y ≤ e.greatest.y + 1

variable {s : CellSet} {e : Extent} {a c n w : Cell}

theorem gaps_adj : s.gaps.Adj c n ↔ (c ∉ s ∧ n ∉ s) ∧ n ∈ c.orthogonal := Iff.rfl

theorem not_mem_of_gaps_reachable (outside : a ∉ s) (reach : s.gaps.Reachable a c) : c ∉ s :=
  Grid.mem_of_reachable (p := (· ∉ s)) (fun _ _ _ adj => (gaps_adj.1 adj).1.2) reach outside

instance : Decidable (s.IsWall c) := inferInstanceAs (Decidable (_ ∧ _ ∧ _))

instance : Decidable (c.Before n) := inferInstanceAs (Decidable (_ ∨ _ ∧ _))

theorem firstWall_iff :
    s.FirstWall w ↔ s.IsWall w ∧ ∀ n ∈ s.toList, s.IsWall n → n = w ∨ w.Before n :=
  and_congr_right fun _ => forall_congr' fun _ =>
    ⟨fun first _ => first, fun first wall => first wall.1 wall⟩

theorem mem_of_gap {cells : List Cell} (closed : ∀ c ∈ cells, ∀ n ∈ c.orthogonal, n ∈ s ∨ n ∈ cells)
    (inside : a ∈ cells) (reach : s.gaps.Reachable a c) : c ∈ cells :=
  Grid.mem_of_reachable (p := (· ∈ cells)) (fun c n mem adj =>
    (closed c mem n (gaps_adj.1 adj).2).resolve_left (gaps_adj.1 adj).1.2) reach inside

theorem FirstWall.unique (first : s.FirstWall w) (other : s.FirstWall c) : c = w := by
  rcases first.2 c other.1 with same | before
  · exact same
  · exact ((other.2 w first.1).resolve_right before.asymm).symm

theorem encloses_iff (found : s.extent? = some e) (outside : a ∉ s) :
    s.Encloses a ↔ ∀ n, s.gaps.Reachable a n → e.Spans n := by
  simp only [Encloses, outside, not_false_eq_true, true_and, found, Option.some.injEq, forall_eq']

theorem Encloses.of_reachable (enclosed : s.Encloses a) (reach : s.gaps.Reachable a c) :
    s.Encloses c :=
  ⟨not_mem_of_gaps_reachable enclosed.1 reach, fun e found n reached =>
    enclosed.2 e found n (reach.trans reached)⟩

theorem Extent.Spans.frames (spans : e.Spans c) : e.Frames c := by
  simp only [Frames, Spans] at *
  omega

theorem Extent.Spans.frames_of_near (spans : e.Spans c) (near : n ∈ c.orthogonal) : e.Frames n := by
  obtain ⟨d, rfl⟩ := Cell.mem_orthogonal.1 near
  simp only [Frames, Spans, Cell.step_x, Cell.step_y] at *
  cases d <;> simp only [Direction.dx, Direction.dy] <;> omega

theorem firstWall_of_borders (roomy : e.Roomy) (border : ∀ c, c ∈ s ↔ e.Borders c) :
    s.FirstWall ⟨e.least.x, e.least.y + 1⟩ := by
  simp only [Extent.Roomy] at roomy
  simp only [FirstWall, IsWall, border, Extent.Borders, Extent.Spans, Cell.Before, Cell.ext_iff,
    Cell.east, Cell.west, Cell.step_x, Cell.step_y, Direction.dx, Direction.dy, true_or, and_true]
  refine ⟨by omega, fun n wall => ?_⟩
  omega

theorem gaps_reachable_of_borders (border : ∀ c, c ∈ s ↔ e.Borders c) (here : e.Holds a) :
    s.gaps.Reachable a c ↔ e.Holds c := by
  have outside {n : Cell} (holds : e.Holds n) : n ∉ s := mt (border n).1 holds.not_borders
  constructor
  · intro reach
    refine Grid.mem_of_reachable (fun m n holds adj => ?_) reach here
    obtain ⟨⟨-, out⟩, near⟩ := gaps_adj.1 adj
    exact (Extent.spans_iff.1 (holds.spans_of_near near)).resolve_left (mt (border n).2 out)
  · refine Grid.reachable_of_holds (fun x y here there => ?_) (fun x y here there => ?_) here
    · exact ⟨⟨outside here, outside there⟩, Cell.mem_orthogonal.2 ⟨.east, (Grid.step_east x y).symm⟩⟩
    · exact ⟨⟨outside here, outside there⟩,
        Cell.mem_orthogonal.2 ⟨.south, (Grid.step_south x y).symm⟩⟩

end CellSet

namespace Outline

open CellSet (Extent)

variable {g : Grid} {s : CellSet} {e : Extent} {a c n p w : Cell}

def spot (e : Extent) (c : Cell) : Cell := c.translate (1 - e.least.x) (1 - e.least.y)

theorem exists_spot (e : Extent) (p : Cell) : ∃ c, p = spot e c := p.exists_translate ..

theorem spot_step (d : Direction) : (spot e c).step d = spot e (c.step d) := c.step_translate ..

theorem unspot : (spot e c).translate (e.least.x - 1) (e.least.y - 1) = c := by
  ext <;> simp only [spot, Cell.translate_x, Cell.translate_y] <;> omega

theorem spot_mem_orthogonal : spot e n ∈ (spot e c).orthogonal ↔ n ∈ c.orthogonal := by
  simp only [Cell.mem_orthogonal, spot_step]
  exact exists_congr fun d => ⟨Cell.translate_injective, congrArg _⟩

/-- Whether on the canvas the area of a cell goes on into the margin. -/
def LeadsOut (s : CellSet) (e : Extent) (a : Cell) : Prop :=
  ∃ n, (solid s e).areas.Reachable (spot e a) (spot e n) ∧ e.Frames n ∧ ¬ e.Spans n

theorem mem_solid : p ∈ solid s e ↔ p ∈ Grid.blank (e.width + 2) (e.height + 2) := by
  rw [solid, Grid.mem_overwrite]

section Canvas

variable (found : s.extent? = some e)
include found

theorem mem_solid_spot : spot e c ∈ solid s e ↔ e.Frames c := by
  obtain ⟨⟨west, inWest, atWest⟩, -, -, -⟩ := CellSet.tight_of_extent? found
  have spans := CellSet.spans_of_extent? found inWest
  rw [mem_solid, Grid.mem_def]
  simp only [Extent.Spans] at spans
  simp only [Grid.blank, spot, Cell.translate_x, Cell.translate_y, Extent.width, Extent.height,
    Extent.Frames]
  omega

theorem get_solid_spot (frames : e.Frames c) :
    (solid s e).get (spot e c) = if c ∈ s then Ink.mark else Glyph.blank := by
  have inside := mem_solid.1 ((mem_solid_spot found).2 frames)
  have drawn : spot e c ∈ s.toList.map (·.translate (1 - e.least.x) (1 - e.least.y)) ↔ c ∈ s := by
    rw [List.mem_map]
    constructor
    · rintro ⟨n, mem, same⟩
      exact Cell.translate_injective same ▸ mem
    · exact fun mem => ⟨c, mem, rfl⟩
  simp only [solid, Grid.get_overwrite, Grid.get_blank, drawn, inside, and_true, if_true]

theorem isBlank_solid_spot (frames : e.Frames c) : (solid s e).isBlank (spot e c) ↔ c ∉ s := by
  rw [Grid.isBlank, get_solid_spot found frames]
  split <;> simp_all [Glyph.isBlank, Ink.mark, Glyph.blank]

theorem atEdge_spot (frames : e.Frames c) : atEdge (solid s e) (spot e c) ↔ ¬ e.Spans c := by
  obtain ⟨⟨west, inWest, atWest⟩, -, -, -⟩ := CellSet.tight_of_extent? found
  have spans := CellSet.spans_of_extent? found inWest
  simp only [Extent.Spans, Extent.Frames] at *
  simp only [atEdge, solid, Grid.width_overwrite, Grid.height_overwrite, Grid.blank, spot,
    Cell.translate_x, Cell.translate_y, Extent.width, Extent.height, Bool.or_eq_true, beq_iff_eq]
  omega

theorem areas_adj_spot (frames : e.Frames c ∧ e.Frames n) (outside : c ∉ s) :
    (solid s e).areas.Adj (spot e c) (spot e n) ↔ s.gaps.Adj c n := by
  rw [Grid.areas_adj, CellSet.gaps_adj, mem_solid_spot found, mem_solid_spot found,
    spot_mem_orthogonal, get_solid_spot found frames.1, get_solid_spot found frames.2,
    if_neg outside]
  by_cases inside : n ∈ s
  · simp [inside, Ink.mark, Glyph.blank]
  · simp [inside, outside, frames]

/-- On the canvas, what is connected to a cell outside the set belongs to its gap. -/
theorem exists_gap_spot (frames : e.Frames a) (outside : a ∉ s)
    (reach : (solid s e).areas.Reachable (spot e a) p) :
    ∃ c, p = spot e c ∧ e.Frames c ∧ s.gaps.Reachable a c := by
  refine Grid.mem_of_reachable (p := fun p => ∃ c, p = spot e c ∧ e.Frames c ∧
    s.gaps.Reachable a c) ?_ reach ⟨a, rfl, frames, by rfl⟩
  rintro _ q ⟨c, rfl, frames, reached⟩ adj
  obtain ⟨n, rfl⟩ := exists_spot e q
  have there := (mem_solid_spot found).1 (Grid.areas_adj.1 adj).1.2
  have step := (areas_adj_spot found ⟨frames, there⟩
    (CellSet.not_mem_of_gaps_reachable outside reached)).1 adj
  exact ⟨n, rfl, there, reached.trans step.reachable⟩

/-- What belongs to a gap is connected on the canvas, unless the gap leads out of the extent. -/
theorem gap_spot_or_leads (frames : e.Frames a) (reach : s.gaps.Reachable a c) :
    (solid s e).areas.Reachable (spot e a) (spot e c) ∧ e.Spans c ∨ LeadsOut s e a := by
  have settle {n : Cell} (frames : e.Frames n)
      (reached : (solid s e).areas.Reachable (spot e a) (spot e n)) :
      (solid s e).areas.Reachable (spot e a) (spot e n) ∧ e.Spans n ∨ LeadsOut s e a := by
    by_cases spans : e.Spans n
    · exact .inl ⟨reached, spans⟩
    · exact .inr ⟨n, reached, frames, spans⟩
  refine Grid.mem_of_reachable (p := fun c =>
    (solid s e).areas.Reachable (spot e a) (spot e c) ∧ e.Spans c ∨ LeadsOut s e a) ?_ reach
    (settle frames (by rfl))
  rintro c n (⟨reached, spans⟩ | leads) adj
  · have there := spans.frames_of_near (CellSet.gaps_adj.1 adj).2
    have step := (areas_adj_spot found ⟨spans.frames, there⟩ (CellSet.gaps_adj.1 adj).1.1).2 adj
    exact settle there (reached.trans step.reachable)
  · exact .inr leads

theorem isWall_spot (frames : e.Frames c) :
    (!(solid s e).isBlank (spot e c) && (solid s e).isBlank (spot e c).east &&
      (solid s e).isBlank (spot e c).west) ↔ s.IsWall c := by
  rw [Bool.and_eq_true, Bool.and_eq_true, Bool.not_eq_true', ← Bool.not_eq_true,
    isBlank_solid_spot found frames, not_not, CellSet.IsWall, and_assoc]
  refine and_congr_right fun mem => ?_
  have near (d : Direction) : e.Frames (c.step d) :=
    (CellSet.spans_of_extent? found mem).frames_of_near (Cell.mem_orthogonal.2 ⟨d, rfl⟩)
  rw [Cell.east, Cell.west, spot_step, spot_step, isBlank_solid_spot found (near .east),
    isBlank_solid_spot found (near .west)]
  rfl

theorem wall?_solid : (wall? (solid s e) = none ∧ ∀ w, ¬ s.IsWall w) ∨
    ∃ w, wall? (solid s e) = some (spot e w) ∧ s.FirstWall w := by
  have place {w : Cell} (wall : s.IsWall w) : e.Frames w :=
    (CellSet.spans_of_extent? found wall.1).frames
  cases search : wall? (solid s e) with
  | none =>
    refine .inl ⟨rfl, fun w wall => ?_⟩
    have inside := (mem_solid_spot found).2 (place wall)
    exact List.find?_eq_none.1 search _ (Grid.mem_cells.2 inside)
      ((isWall_spot found (place wall)).2 wall)
  | some p =>
    obtain ⟨inside, fits, first⟩ := Grid.find?_cells search
    obtain ⟨w, rfl⟩ := exists_spot e p
    refine .inr ⟨w, rfl, (isWall_spot found ((mem_solid_spot found).1 inside)).1 fits, ?_⟩
    intro n wall
    refine (first (spot e n) ((mem_solid_spot found).2 (place wall))
      ((isWall_spot found (place wall)).2 wall)).imp Cell.translate_injective ?_
    simp only [Cell.Before, spot, Cell.translate_x, Cell.translate_y]
    omega

theorem filled?_of_no_wall (bare : ∀ w, ¬ s.FirstWall w) : filled? s = some s := by
  obtain ⟨search, -⟩ | ⟨w, -, first⟩ := wall?_solid found
  · simp only [filled?, found, bind, Option.bind, search]
  · exact absurd first (bare w)

/-- The area filled on the canvas is the gap east of the first wall, unless it leads out. -/
theorem filled?_of_wall (first : s.FirstWall w) :
    (∃ filled, filled? s = some filled ∧ s.Encloses w.east ∧
      ∀ c, c ∈ filled ↔ c ∈ s ∨ s.gaps.Reachable w.east c) ∨
    filled? s = none ∧ ¬ s.Encloses w.east := by
  obtain ⟨-, none⟩ | ⟨w', search, same⟩ := wall?_solid found
  · exact absurd first.1 (none w)
  obtain rfl := first.unique same
  have outside : w'.east ∉ s := first.1.2.1
  have frames : e.Frames w'.east := (CellSet.spans_of_extent? found first.1.1).frames_of_near
    (Cell.mem_orthogonal.2 ⟨.east, rfl⟩)
  obtain ⟨area, filled, -, mem⟩ := Grid.fill_eq Ink.mark ((mem_solid_spot found).2 frames) (by
    rw [get_solid_spot found frames, if_neg outside]
    decide)
  have answer : filled? s = if area.any (atEdge (solid s e)) then none
      else some (s.extend (area.map (·.translate (e.least.x - 1) (e.least.y - 1)))) := by
    simp only [filled?, found, bind, Option.bind, search, Cell.east, spot_step]
    simp only [Cell.east] at filled
    simp only [filled]
  rw [answer, CellSet.encloses_iff found outside]
  -- A gap that goes on beyond the extent is met again in the margin, where its edge is.
  by_cases leads : LeadsOut s e w'.east
  · obtain ⟨n, reached, there, beyond⟩ := leads
    obtain ⟨c, same, -, gap⟩ := exists_gap_spot found frames outside reached
    obtain rfl : n = c := Cell.translate_injective same
    refine .inr ⟨if_pos (List.any_eq_true.2 ⟨_, (mem _).2 reached, ?_⟩), fun within => ?_⟩
    · exact (atEdge_spot found there).2 beyond
    · exact beyond (within n gap)
  · have settled {c : Cell} (gap : s.gaps.Reachable w'.east c) :
        (solid s e).areas.Reachable (spot e w'.east) (spot e c) ∧ e.Spans c :=
      (gap_spot_or_leads found frames gap).resolve_right leads
    refine .inl ⟨_, if_neg ?_, fun c gap => (settled gap).2, fun c => ?_⟩
    · rw [List.any_eq_true]
      rintro ⟨p, member, edge⟩
      obtain ⟨c, rfl, there, -⟩ := exists_gap_spot found frames outside ((mem p).1 member)
      exact leads ⟨c, (mem _).1 member, there, (atEdge_spot found there).1 edge⟩
    · rw [CellSet.mem_extend, List.mem_map]
      refine or_congr_right ⟨?_, fun gap => ?_⟩
      · rintro ⟨p, member, rfl⟩
        obtain ⟨c, rfl, -, gap⟩ := exists_gap_spot found frames outside ((mem p).1 member)
        rwa [unspot]
      · exact ⟨spot e c, (mem _).2 (settled gap).1, unspot⟩

end Canvas

/-- A border together with what it encloses is the whole rectangle. -/
theorem filled?_of_borders (roomy : e.Roomy) (border : ∀ c, c ∈ s ↔ e.Borders c) :
    ∃ filled, filled? s = some filled ∧ ∀ c, c ∈ filled ↔ e.Spans c := by
  have found := CellSet.extent?_of_borders roomy border
  have first := CellSet.firstWall_of_borders roomy border
  have holds : e.Holds (Cell.east ⟨e.least.x, e.least.y + 1⟩) := by
    simp only [Extent.Roomy] at roomy
    simp only [Extent.Holds, Cell.east, Cell.step_x, Cell.step_y, Direction.dx, Direction.dy]
    omega
  obtain ⟨filled, answer, -, mem⟩ | ⟨-, escapes⟩ := filled?_of_wall found first
  · refine ⟨filled, answer, fun c => ?_⟩
    rw [mem, border, CellSet.gaps_reachable_of_borders border holds, ← Extent.spans_iff]
  · refine absurd ((CellSet.encloses_iff found first.1.2.1).2 fun n reach => ?_) escapes
    exact Extent.spans_iff.2 (.inr ((CellSet.gaps_reachable_of_borders border holds).1 reach))

/-- What is filled with a set is the gap east of its first wall if it has a wall, and nothing else.
There is no answer only where that gap goes on beyond the extent. -/
theorem filled?_adds_gap (nonempty : ∃ c, c ∈ s) : ∃ e, s.extent? = some e ∧
    (∀ filled, filled? s = some filled → (∀ c ∈ s, c ∈ filled) ∧
      ((∀ c ∈ filled, c ∈ s) ∨ ∃ w, s.FirstWall w ∧
        (∀ c, c ∈ filled ∧ c ∉ s ↔ s.gaps.Reachable w.east c) ∧
        ∀ c, s.gaps.Reachable w.east c → e.Spans c)) ∧
    (filled? s = none ↔ ∃ w, s.FirstWall w ∧ ∃ c, s.gaps.Reachable w.east c ∧ ¬ e.Spans c) := by
  obtain ⟨c, mem⟩ := nonempty
  obtain ⟨e, found⟩ := CellSet.extent?_isSome mem
  refine ⟨e, found, ?_⟩
  -- Without a first wall nothing is filled, and the set is its own answer.
  by_cases walled : ∃ w, s.FirstWall w
  · obtain ⟨w, first⟩ := walled
    have outside : w.east ∉ s := first.1.2.1
    obtain ⟨filled, answer, enclosed, mem⟩ | ⟨answer, escapes⟩ := filled?_of_wall found first
    · have within := (CellSet.encloses_iff found outside).1 enclosed
      have gap (c : Cell) : c ∈ filled ∧ c ∉ s ↔ s.gaps.Reachable w.east c := by
        rw [mem]
        exact ⟨fun both => both.1.resolve_left both.2, fun gap =>
          ⟨.inr gap, CellSet.not_mem_of_gaps_reachable outside gap⟩⟩
      constructor
      · rintro _ same
        obtain rfl : filled = _ := Option.some.inj (answer.symm.trans same)
        exact ⟨fun c inside => (mem c).2 (.inl inside), .inr ⟨w, first, gap, within⟩⟩
      · rw [answer]
        refine iff_of_false (by simp) ?_
        rintro ⟨w', first', c, reached, beyond⟩
        obtain rfl := first.unique first'
        exact beyond (within c reached)
    · have leaves : ∃ c, s.gaps.Reachable w.east c ∧ ¬ e.Spans c := by
        simpa only [CellSet.encloses_iff found outside, not_forall, exists_prop] using escapes
      exact ⟨fun filled same => absurd (answer.symm.trans same) (by simp),
        iff_of_true answer ⟨w, first, leaves⟩⟩
  · have answer := filled?_of_no_wall found (not_exists.1 walled)
    constructor
    · rintro _ same
      obtain rfl : s = _ := Option.some.inj (answer.symm.trans same)
      exact ⟨fun _ inside => inside, .inl fun _ inside => inside⟩
    · rw [answer]
      refine iff_of_false (by simp) ?_
      rintro ⟨w, first, -⟩
      exact walled ⟨w, first⟩

theorem filled?_adds_gap_box : (∃ c, c ∈ Layout.boxWalls) ∧ ∃ e, Layout.boxWalls.extent? = some e ∧
    (∀ filled, filled? Layout.boxWalls = some filled → (∀ c ∈ Layout.boxWalls, c ∈ filled) ∧
      ((∀ c ∈ filled, c ∈ Layout.boxWalls) ∨ ∃ w, Layout.boxWalls.FirstWall w ∧
        (∀ c, c ∈ filled ∧ c ∉ Layout.boxWalls ↔ Layout.boxWalls.gaps.Reachable w.east c) ∧
        ∀ c, Layout.boxWalls.gaps.Reachable w.east c → e.Spans c)) ∧
    (filled? Layout.boxWalls = none ↔ ∃ w, Layout.boxWalls.FirstWall w ∧
      ∃ c, Layout.boxWalls.gaps.Reachable w.east c ∧ ¬ e.Spans c) :=
  ⟨⟨⟨0, 0⟩, by decide⟩, filled?_adds_gap ⟨⟨0, 0⟩, by decide⟩⟩

/-- A loop is filled as long as there is a wall to start from and the first has the inside on its
east. Nothing but the inside is filled, and all of it where the inside is a single gap. -/
theorem filled?_of_loop {g : Grid} (loop : form g s = .loop) :
    (filled? s = none ↔ ∃ w, s.FirstWall w ∧ ¬ s.Encloses w.east) ∧
      (∀ w, s.FirstWall w → s.Encloses w.east → ∃ filled, filled? s = some filled ∧
        (∀ c ∈ filled, c ∈ s ∨ s.Encloses c) ∧
        ((∀ a b, s.Encloses a → s.Encloses b → s.gaps.Reachable a b) →
          ∀ c, c ∈ s ∨ s.Encloses c → c ∈ filled)) ∧
      ((∀ w, ¬ s.FirstWall w) → filled? s = some s) := by
  have large : 1 < s.toList.length := (form_eq_loop_iff.1 loop).1
  obtain ⟨e, found⟩ := CellSet.extent?_isSome (List.getElem_mem (Nat.lt_of_succ_lt large))
  refine ⟨⟨fun answer => ?_, ?_⟩, fun w first enclosed => ?_, filled?_of_no_wall found⟩
  · by_cases walled : ∃ w, s.FirstWall w
    · obtain ⟨w, first⟩ := walled
      obtain ⟨filled, other, -⟩ | ⟨-, escapes⟩ := filled?_of_wall found first
      · exact absurd (answer.symm.trans other) (by simp)
      · exact ⟨w, first, escapes⟩
    · have other := filled?_of_no_wall found (not_exists.1 walled)
      exact absurd (answer.symm.trans other) (by simp)
  · rintro ⟨w, first, escapes⟩
    obtain ⟨-, -, enclosed, -⟩ | ⟨answer, -⟩ := filled?_of_wall found first
    · exact absurd enclosed escapes
    · exact answer
  · obtain ⟨filled, answer, -, mem⟩ | ⟨-, escapes⟩ := filled?_of_wall found first
    · refine ⟨filled, answer, fun c met => ((mem c).1 met).imp_right enclosed.of_reachable, ?_⟩
      exact fun whole c met => (mem c).2 (met.imp_right (whole _ _ enclosed))
    · exact absurd enclosed escapes

theorem eq_of_encloses_boxWalls (inside : Layout.boxWalls.Encloses c) : c = ⟨1, 1⟩ := by
  have spans := inside.2 ⟨⟨0, 0⟩, ⟨2, 2⟩⟩ (by decide) c (by rfl)
  have outside := inside.1
  simp only [CellSet.mem_def, Layout.boxWalls, List.mem_cons, List.not_mem_nil, or_false,
    not_or, Cell.ext_iff] at outside
  simp only [Extent.Spans] at spans
  ext <;> simp only <;> omega

theorem filled?_of_loop_box : form Layout.box Layout.boxWalls = .loop ∧
    Layout.boxWalls.FirstWall ⟨0, 1⟩ ∧ Layout.boxWalls.Encloses ⟨1, 1⟩ ∧
      ∃ filled, filled? Layout.boxWalls = some filled ∧
        ∀ c, c ∈ filled ↔ c ∈ Layout.boxWalls ∨ Layout.boxWalls.Encloses c := by
  have loop : form Layout.box Layout.boxWalls = .loop :=
    Layout.form_of_ring (by decide) Layout.boxWalls_ring
  have first : Layout.boxWalls.FirstWall ⟨0, 1⟩ := CellSet.firstWall_iff.2 (by decide)
  have extent : Layout.boxWalls.extent? = some ⟨⟨0, 0⟩, ⟨2, 2⟩⟩ := by decide
  have enclosed : Layout.boxWalls.Encloses ⟨1, 1⟩ := by
    rw [CellSet.encloses_iff extent (by decide)]
    intro n reach
    have alone : ∀ c ∈ [(⟨1, 1⟩ : Cell)], ∀ n ∈ c.orthogonal,
        n ∈ Layout.boxWalls ∨ n ∈ [(⟨1, 1⟩ : Cell)] := by decide
    have inside := CellSet.mem_of_gap alone (by decide) reach
    obtain rfl := List.mem_singleton.1 inside
    simp only [Extent.Spans]
    omega
  obtain ⟨-, filling, -⟩ := filled?_of_loop loop
  obtain ⟨filled, answer, within, full⟩ := filling _ first enclosed
  refine ⟨loop, first, enclosed, filled, answer, fun c => ⟨within c, full (fun a b inA inB => ?_) c⟩⟩
  rw [eq_of_encloses_boxWalls inA, eq_of_encloses_boxWalls inB]

def stairs : Grid where
  width := 5
  height := 4
  chars := #[
    ' ', ' ', '+', '-', '+',
    '+', '-', '+', ' ', '|',
    '|', ' ', ' ', ' ', '|',
    '+', '-', '-', '-', '+']
  size_chars := rfl

def stairWalls : CellSet :=
  ⟨[⟨2, 0⟩, ⟨3, 0⟩, ⟨4, 0⟩, ⟨4, 1⟩, ⟨4, 2⟩, ⟨4, 3⟩, ⟨3, 3⟩, ⟨2, 3⟩, ⟨1, 3⟩, ⟨0, 3⟩, ⟨0, 2⟩, ⟨0, 1⟩,
    ⟨1, 1⟩, ⟨2, 1⟩], by decide⟩

def chambers : Grid where
  width := 9
  height := 4
  chars := #[
    '+', '-', '-', '+', ' ', '+', '-', '-', '+',
    '|', ' ', ' ', '+', '-', '+', ' ', ' ', '|',
    '|', ' ', '+', '-', '-', '-', '+', ' ', '|',
    '+', '-', '+', ' ', ' ', ' ', '+', '-', '+']
  size_chars := rfl

def chamberWalls : CellSet :=
  ⟨[⟨0, 0⟩, ⟨1, 0⟩, ⟨2, 0⟩, ⟨3, 0⟩, ⟨3, 1⟩, ⟨4, 1⟩, ⟨5, 1⟩, ⟨5, 0⟩, ⟨6, 0⟩, ⟨7, 0⟩, ⟨8, 0⟩, ⟨8, 1⟩,
    ⟨8, 2⟩, ⟨8, 3⟩, ⟨7, 3⟩, ⟨6, 3⟩, ⟨6, 2⟩, ⟨5, 2⟩, ⟨4, 2⟩, ⟨3, 2⟩, ⟨2, 2⟩, ⟨2, 3⟩, ⟨1, 3⟩, ⟨0, 3⟩,
    ⟨0, 2⟩, ⟨0, 1⟩], by decide⟩

def westChamber : List Cell := [⟨1, 1⟩, ⟨2, 1⟩, ⟨1, 2⟩]

def eastChamber : List Cell := [⟨6, 1⟩, ⟨7, 1⟩, ⟨7, 2⟩]

theorem westChamber_closed :
    ∀ c ∈ westChamber, ∀ n ∈ c.orthogonal, n ∈ chamberWalls ∨ n ∈ westChamber := by
  decide +kernel

theorem eastChamber_closed :
    ∀ c ∈ eastChamber, ∀ n ∈ c.orthogonal, n ∈ chamberWalls ∨ n ∈ eastChamber := by
  decide +kernel

theorem form_stairs : form stairs stairWalls = .loop :=
  Layout.form_of_ring (by decide)
    (.of_isChain (fun _ => Iff.rfl) (by decide +kernel) (by decide +kernel))

theorem form_chambers : form chambers chamberWalls = .loop :=
  Layout.form_of_ring (by decide)
    (.of_isChain (fun _ => Iff.rfl) (by decide +kernel) (by decide +kernel))

/-- A loop may not be filled at all, and then again only in part. -/
theorem loops_not_filled : (form stairs stairWalls = .loop ∧ filled? stairWalls = none) ∧
    form chambers chamberWalls = .loop ∧ chamberWalls.Encloses ⟨7, 1⟩ ∧
      ∃ filled, filled? chamberWalls = some filled ∧ ⟨7, 1⟩ ∉ filled := by
  have stairsExtent : stairWalls.extent? = some ⟨⟨0, 0⟩, ⟨4, 3⟩⟩ := by decide +kernel
  have chambersExtent : chamberWalls.extent? = some ⟨⟨0, 0⟩, ⟨8, 3⟩⟩ := by decide +kernel
  have stairsWall : stairWalls.FirstWall ⟨4, 1⟩ := CellSet.firstWall_iff.2 (by decide +kernel)
  have chambersWall : chamberWalls.FirstWall ⟨0, 1⟩ := CellSet.firstWall_iff.2 (by decide +kernel)
  -- What is reached is bounded by the chambers, which no step off the walls leaves.
  refine ⟨⟨form_stairs, ?_⟩, form_chambers, ?_, ?_⟩
  · obtain ⟨-, -, within, -⟩ | ⟨answer, -⟩ := filled?_of_wall stairsExtent stairsWall
    · have spans := within.2 _ stairsExtent _ (by rfl)
      exact absurd spans.1.2 (by decide)
    · exact answer
  · rw [CellSet.encloses_iff chambersExtent (by decide +kernel)]
    intro n reach
    have inside := CellSet.mem_of_gap eastChamber_closed (by decide) reach
    simp only [eastChamber, List.mem_cons, List.not_mem_nil, or_false] at inside
    rcases inside with rfl | rfl | rfl <;> simp only [Extent.Spans] <;> omega
  · obtain ⟨filled, answer, -, mem⟩ | ⟨-, escapes⟩ := filled?_of_wall chambersExtent chambersWall
    · refine ⟨filled, answer, fun met => ?_⟩
      have reach := ((mem _).1 met).resolve_left (by decide +kernel)
      have inside := CellSet.mem_of_gap westChamber_closed (by decide) reach
      exact absurd inside (by decide)
    · refine absurd ((CellSet.encloses_iff chambersExtent chambersWall.1.2.1).2 ?_) escapes
      intro n reach
      have inside := CellSet.mem_of_gap westChamber_closed (by decide) reach
      simp only [westChamber, List.mem_cons, List.not_mem_nil, or_false] at inside
      rcases inside with rfl | rfl | rfl <;> simp only [Extent.Spans] <;> omega

end Outline

end Linework
