import Linework.Proofs.Canvas
import Linework.Proofs.Joint

/-! The pieces of ink on a canvas, and the cells they lie in.

Ink reaches the center of its own square, and passes from one square to the next only where both
have ink in the middle of their border. So a piece of ink covers just the cells that are connected
through such borders, and the canvas comes apart as the drawing does.
-/

set_option autoImplicit false

namespace Linework

def Cell.Before (c n : Cell) : Prop := c.y < n.y ∨ c.y = n.y ∧ c.x < n.x

theorem Cell.Before.asymm {c n : Cell} (before : c.Before n) : ¬ n.Before c := by
  unfold Cell.Before at *
  omega

theorem Grid.pairwise_cells (g : Grid) : g.cells.Pairwise Cell.Before := by
  unfold Grid.cells
  rw [List.pairwise_flatMap]
  constructor
  · intro y _
    rw [List.pairwise_map]
    exact List.pairwise_lt_range.imp fun less => .inr ⟨rfl, Int.ofNat_lt.2 less⟩
  · refine List.pairwise_lt_range.imp fun less c mem n mem' => ?_
    obtain ⟨_, -, rfl⟩ := List.mem_map.1 mem
    obtain ⟨_, -, rfl⟩ := List.mem_map.1 mem'
    exact .inl (Int.ofNat_lt.2 less)

theorem CellSet.mem_shrink {s : CellSet} {factor : Int} {c : Cell} :
    c ∈ s.shrink factor ↔ ∃ p ∈ s, p.shrink factor = c := by
  rw [CellSet.shrink, CellSet.mem_ofList, List.mem_map]
  rfl

theorem foldlM_ok {α β ε : Type} (f : β → α → Except ε β) (xs : List α) (init : β)
    (p : List α → β → Prop) (start : p [] init)
    (step : ∀ done x rest state, xs = done ++ x :: rest → p done state →
      ∃ next, f state x = .ok next ∧ p (done ++ [x]) next) :
    ∃ last, xs.foldlM f init = .ok last ∧ p xs last := by
  suffices ∀ rest done state, xs = done ++ rest → p done state →
      ∃ last, rest.foldlM f state = .ok last ∧ p xs last from this xs [] init rfl start
  intro rest
  induction rest with
  | nil =>
    intro done state cut now
    rw [cut, List.append_nil]
    exact ⟨state, rfl, now⟩
  | cons x rest ih =>
    intro done state cut now
    obtain ⟨next, stepped, later⟩ := step done x rest state cut now
    obtain ⟨last, run, final⟩ := ih (done ++ [x]) next (by simpa using cut) later
    exact ⟨last, by simpa only [List.foldlM_cons, stepped, bind, Except.bind] using run, final⟩

def Square.border {α : Type} (s : Square α) : Direction → List α
  | .north => [s.northWest, s.north, s.northEast]
  | .east => [s.northEast, s.east, s.southEast]
  | .south => [s.southWest, s.south, s.southEast]
  | .west => [s.northWest, s.west, s.southWest]

theorem forall₂_mem {α β : Type} {r : α → β → Prop} {xs : List α} {ys : List β} {y : β}
    (related : List.Forall₂ r xs ys) (mem : y ∈ ys) : ∃ x ∈ xs, r x y := by
  induction related with
  | nil => cases mem
  | @cons x z xs ys here rest ih =>
    rcases List.mem_cons.1 mem with rfl | mem
    · exact ⟨x, List.mem_cons_self .., here⟩
    · obtain ⟨w, member, there⟩ := ih mem
      exact ⟨w, List.mem_cons_of_mem _ member, there⟩

theorem pairwise_of_forall₂ {α β : Type} {r : α → β → Prop} {before : α → α → Prop}
    {apart : β → β → Prop} {xs : List α} {ys : List β} (related : List.Forall₂ r xs ys)
    (ordered : xs.Pairwise before)
    (carry : ∀ a a' b b', before a a' → r a b → r a' b' → apart b b') : ys.Pairwise apart := by
  induction related with
  | nil => exact .nil
  | @cons x y xs ys here rest ih =>
    obtain ⟨first, others⟩ := List.pairwise_cons.1 ordered
    refine List.pairwise_cons.2 ⟨fun b mem => ?_, ih others⟩
    obtain ⟨a, member, there⟩ := forall₂_mem rest mem
    exact carry x a y b (first a member) here there

namespace Ink

variable {g : Grid} {cells : CellSet} {c n p q : Cell} {ink other : Square Bool} {r t : Role}
  {d : Direction} {dx dy : Int}

def faces (ink other : Square Bool) (d : Direction) : Bool :=
  ((ink.border d).zip (other.border d.opposite)).any fun places => places.1 && places.2

theorem border_of_role (drawn : ofRole? r = some ink) (d : Direction) :
    ∃ corner, ink.border d = [corner, ink.side d, corner] ∧ (corner → ink.side d) := by
  have straight (sides : List Direction) : ∃ corner,
      (arms sides).border d = [corner, (arms sides).side d, corner] ∧
        (corner → (arms sides).side d) :=
    ⟨false, by cases d <;> rfl, by simp⟩
  cases r with
  | stub => cases drawn
  | star => cases drawn; exact ⟨true, by cases d <;> rfl, by cases d <;> simp [Square.side]⟩
  | _ => cases drawn; exact straight _

/-- Ink at facing places is ink in the middle of the border, on both sides. -/
theorem faces_iff (drawn : ofRole? r = some ink) (drawn' : ofRole? t = some other) :
    faces ink other d ↔ ink.side d ∧ other.side d.opposite := by
  obtain ⟨corner, border, reach⟩ := border_of_role drawn d
  obtain ⟨corner', border', reach'⟩ := border_of_role drawn' d.opposite
  rw [faces, border, border']
  simp only [List.zip_cons_cons, List.zip_nil_right, List.any_cons, List.any_nil, Bool.or_eq_true,
    Bool.and_eq_true, Bool.or_false]
  constructor
  · rintro (⟨here, there⟩ | both | ⟨here, there⟩)
    · exact ⟨reach here, reach' there⟩
    · exact both
    · exact ⟨reach here, reach' there⟩
  · exact fun both => .inr (.inl both)

/-- The given cells with an edge between two that have ink at facing places of their border. -/
def contacts (g : Grid) (cells : CellSet) : SimpleGraph Cell where
  Adj c n := (c ∈ cells ∧ n ∈ cells) ∧ ∃ d, n = c.step d ∧
    ∃ ink ∈ (g.role? c).bind ofRole?, ∃ other ∈ (g.role? n).bind ofRole?, faces ink other d
  symm := ⟨by
    rintro c n ⟨mem, d, rfl, ink, found, other, found', met⟩
    refine ⟨mem.symm, d.opposite, (Cell.step_step_opposite c d).symm, other, found', ink, found, ?_⟩
    obtain ⟨r, -, drawn⟩ := Option.bind_eq_some_iff.1 found
    obtain ⟨t, -, drawn'⟩ := Option.bind_eq_some_iff.1 found'
    rw [faces_iff drawn drawn'] at met
    rw [faces_iff drawn' drawn, Direction.opposite_opposite]
    exact met.symm⟩
  loopless := ⟨by
    rintro c ⟨-, d, same, -⟩
    exact c.step_ne d same.symm⟩

theorem contacts_adj : (contacts g cells).Adj c n ↔ (c ∈ cells ∧ n ∈ cells) ∧ g.web.Adj c n := by
  refine and_congr_right fun _ => ?_
  constructor
  · rintro ⟨d, rfl, ink, found, other, found', met⟩
    obtain ⟨r, role, drawn⟩ := Option.bind_eq_some_iff.1 found
    obtain ⟨t, role', drawn'⟩ := Option.bind_eq_some_iff.1 found'
    obtain ⟨here, there⟩ := (faces_iff drawn drawn').1 met
    exact ⟨d, Grid.mem_joints.2 ⟨Grid.inksSide_iff.2 ⟨r, ink, role, drawn, here⟩,
      Grid.inksSide_iff.2 ⟨t, other, role', drawn', there⟩⟩, rfl⟩
  · rintro ⟨d, joint, rfl⟩
    obtain ⟨here, there⟩ := Grid.mem_joints.1 joint
    obtain ⟨r, ink, role, drawn, here⟩ := Grid.inksSide_iff.1 here
    obtain ⟨t, other, role', drawn', there⟩ := Grid.inksSide_iff.1 there
    exact ⟨d, rfl, ink, Option.bind_eq_some_iff.2 ⟨r, role, drawn⟩, other,
      Option.bind_eq_some_iff.2 ⟨t, role', drawn'⟩, (faces_iff drawn drawn').2 ⟨here, there⟩⟩

/-! ### The ink of a canvas -/

theorem shrink_place (xNear : -1 ≤ dx ∧ dx ≤ 1) (yNear : -1 ≤ dy ∧ dy ≤ 1) :
    (place c dx dy).shrink scale = c := by
  ext <;> simp only [place, scale, Cell.shrink] <;> omega

theorem exists_place (p : Cell) : ∃ dx dy, (-1 ≤ dx ∧ dx ≤ 1) ∧ (-1 ≤ dy ∧ dy ≤ 1) ∧
    p = place (p.shrink scale) dx dy := by
  refine ⟨p.x % 3 - 1, p.y % 3 - 1, by omega, by omega, ?_⟩
  ext <;> simp only [place, scale, Cell.shrink] <;> omega

theorem exists_entry (inked : inks g c p) : ∃ r ink dx dy, g.role? c = some r ∧
    ofRole? r = some ink ∧ (dx, dy, true) ∈ ink.entries ∧ p = place c dx dy := by
  rw [inks, Option.any_eq_true] at inked
  obtain ⟨ink, found, covered⟩ := inked
  obtain ⟨r, role, drawn⟩ := Option.bind_eq_some_iff.1 found
  obtain ⟨⟨dx, dy, bit⟩, entry, covered⟩ := List.any_eq_true.1 covered
  rw [Bool.and_eq_true, beq_iff_eq] at covered
  obtain ⟨rfl, same⟩ := covered
  exact ⟨r, ink, dx, dy, role, drawn, entry, same⟩

theorem shrink_of_inks (inked : inks g c p) : p.shrink scale = c := by
  obtain ⟨r, ink, dx, dy, -, -, entry, rfl⟩ := exists_entry inked
  have near := near_of_mem_entries entry
  exact shrink_place near.1 near.2

theorem mem_of_role? (role : g.role? c = some r) : c ∈ g := by
  by_contra out
  rw [Grid.role?_of_empty (.inr (Grid.get_of_not_mem out))] at role
  cases role

theorem inks_place (role : g.role? c = some r) (drawn : ofRole? r = some ink)
    (entry : (dx, dy, true) ∈ ink.entries) : inks g c (place c dx dy) := by
  rw [inks, role, Option.bind_some, drawn]
  exact covers_place entry

theorem get_render_eq_mark : (render g cells).get p = mark ↔ ∃ c ∈ cells, inks g c p := by
  rw [get_render]
  constructor
  · intro marked
    split at marked
    · split at marked
      · rename_i found
        obtain ⟨c, mem, inked⟩ := List.any_eq_true.1 found
        exact ⟨c, mem, inked⟩
      · exact absurd marked (by decide)
    · exact absurd marked (by decide)
  · rintro ⟨c, mem, inked⟩
    have inside : p ∈ Grid.blank (g.width * scale) (g.height * scale) := by
      obtain ⟨r, ink, dx, dy, role, -, entry, rfl⟩ := exists_entry inked
      have bounds := Grid.mem_def.1 (mem_of_role? role)
      have near := near_of_mem_entries entry
      simp only at near
      simp only [Grid.mem_def, place, scale, Grid.blank]
      omega
    rw [if_pos inside, if_pos (List.any_eq_true.2 ⟨c, mem, inked⟩)]

theorem mark_side (mem : c ∈ cells) (inked : g.inksSide c d) :
    (render g cells).get (place c d.dx d.dy) = mark := by
  rw [Grid.inksSide, Option.any_eq_true] at inked
  obtain ⟨ink, found, side⟩ := inked
  refine get_render_eq_mark.2 ⟨c, mem, ?_⟩
  rw [inks, found]
  exact covers_side side

theorem inks_of_mark (marked : (render g cells).get p = mark) :
    p.shrink scale ∈ cells ∧ inks g (p.shrink scale) p := by
  obtain ⟨c, mem, inked⟩ := get_render_eq_mark.1 marked
  rw [shrink_of_inks inked]
  exact ⟨mem, inked⟩

theorem get_place_eq_mark (xNear : -1 ≤ dx ∧ dx ≤ 1) (yNear : -1 ≤ dy ∧ dy ≤ 1) :
    (render g cells).get (place c dx dy) = mark ↔ c ∈ cells ∧
      ∃ r ink, g.role? c = some r ∧ ofRole? r = some ink ∧ (dx, dy, true) ∈ ink.entries := by
  constructor
  · intro marked
    obtain ⟨mem, inked⟩ := inks_of_mark marked
    rw [shrink_place xNear yNear] at mem inked
    obtain ⟨r, ink, ex, ey, role, drawn, entry, same⟩ := exists_entry inked
    have near := near_of_mem_entries entry
    obtain ⟨-, rfl, rfl⟩ := place_inj xNear yNear near.1 near.2 same
    exact ⟨mem, r, ink, role, drawn, entry⟩
  · rintro ⟨mem, r, ink, role, drawn, entry⟩
    exact get_render_eq_mark.2 ⟨c, mem, inks_place role drawn entry⟩

theorem mem_of_mark {canvas : Grid} (marked : canvas.get p = mark) : p ∈ canvas :=
  Grid.mem_of_get_ne_outside (by rw [marked]; decide)

-- Ink off the center has ink beside it that is nearer to the center, in its own column and then in
-- the middle row.
theorem entry_inward (drawn : ofRole? r = some ink) (entry : (dx, dy, true) ∈ ink.entries) :
    (dx, 0, true) ∈ ink.entries ∧ (0, 0, true) ∈ ink.entries := by
  have straight (sides : List Direction) (entry : (dx, dy, true) ∈ (arms sides).entries) :
      (dx, 0, true) ∈ (arms sides).entries ∧ (0, 0, true) ∈ (arms sides).entries := by
    simp only [Square.entries, arms, List.mem_cons, List.not_mem_nil, or_false, Prod.mk.injEq,
      Bool.true_eq_false, and_false, false_or] at entry
    rcases entry with ⟨rfl, rfl, -⟩ | ⟨rfl, rfl, on⟩ | ⟨rfl, rfl, -⟩ | ⟨rfl, rfl, on⟩ |
      ⟨rfl, rfl, -⟩ <;>
      simp_all [Square.entries, arms]
  cases r with
  | stub => cases drawn
  | star =>
    cases drawn
    have near := near_of_mem_entries entry
    have cases : dx = -1 ∨ dx = 0 ∨ dx = 1 := by omega
    rcases cases with rfl | rfl | rfl <;> decide
  | _ => cases drawn; exact straight _ entry

theorem reachable_of_marks {canvas : Grid} (marked : canvas.get p = mark)
    (marked' : canvas.get q = mark) (near : q = p ∨ q ∈ p.orthogonal) :
    canvas.areas.Reachable p q := by
  rcases near with rfl | near
  · rfl
  · exact SimpleGraph.Adj.reachable (G := canvas.areas)
      ⟨⟨mem_of_mark marked, mem_of_mark marked'⟩, near, marked.trans marked'.symm⟩

theorem place_inward_row (c : Cell) (dx : Int) (near : -1 ≤ dy ∧ dy ≤ 1) :
    place c dx 0 = place c dx dy ∨ place c dx 0 ∈ (place c dx dy).orthogonal := by
  have cases : dy = -1 ∨ dy = 0 ∨ dy = 1 := by omega
  rw [Cell.mem_orthogonal]
  rcases cases with rfl | rfl | rfl
  · exact .inr ⟨.south, by ext <;> simp [place, Direction.dx, Direction.dy]⟩
  · exact .inl rfl
  · exact .inr ⟨.north, by ext <;> simp [place, Direction.dx, Direction.dy]⟩

theorem place_inward_column (c : Cell) (near : -1 ≤ dx ∧ dx ≤ 1) :
    place c 0 0 = place c dx 0 ∨ place c 0 0 ∈ (place c dx 0).orthogonal := by
  have cases : dx = -1 ∨ dx = 0 ∨ dx = 1 := by omega
  rw [Cell.mem_orthogonal]
  rcases cases with rfl | rfl | rfl
  · exact .inr ⟨.east, by ext <;> simp [place, Direction.dx, Direction.dy]⟩
  · exact .inl rfl
  · exact .inr ⟨.west, by ext <;> simp [place, Direction.dx, Direction.dy]⟩

/-- All the ink of a cell is connected to its center. -/
theorem reachable_center (marked : (render g cells).get p = mark) :
    (render g cells).areas.Reachable p (place (p.shrink scale) 0 0) := by
  obtain ⟨mem, inked⟩ := inks_of_mark marked
  generalize p.shrink scale = c at mem inked
  obtain ⟨r, ink, dx, dy, role, drawn, entry, rfl⟩ := exists_entry inked
  obtain ⟨inward, center⟩ := entry_inward drawn entry
  have near := near_of_mem_entries entry
  have middle : (render g cells).get (place c dx 0) = mark :=
    get_render_eq_mark.2 ⟨c, mem, inks_place role drawn inward⟩
  have last : (render g cells).get (place c 0 0) = mark :=
    get_render_eq_mark.2 ⟨c, mem, inks_place role drawn center⟩
  exact (reachable_of_marks marked middle (place_inward_row c dx near.2)).trans
    (reachable_of_marks middle last (place_inward_column c near.1))

theorem side_of_entry (drawn : ofRole? r = some ink) (entry : (dx, dy, true) ∈ ink.entries)
    (border : dx * d.dx + dy * d.dy = 1) : ink.side d := by
  have straight (sides : List Direction) (entry : (dx, dy, true) ∈ (arms sides).entries) :
      (arms sides).side d := by
    simp only [Square.entries, arms, List.mem_cons, List.not_mem_nil, or_false, Prod.mk.injEq,
      Bool.true_eq_false, and_false, false_or] at entry
    rcases entry with ⟨rfl, rfl, on⟩ | ⟨rfl, rfl, on⟩ | ⟨rfl, rfl, -⟩ | ⟨rfl, rfl, on⟩ |
      ⟨rfl, rfl, on⟩ <;>
      cases d <;> simp_all [Direction.dx, Direction.dy]
  cases r with
  | stub => cases drawn
  | star => cases drawn; cases d <;> rfl
  | _ => cases drawn; exact straight _ entry

theorem step_place (c : Cell) (d : Direction) (dx dy : Int) :
    (place c dx dy).step d = place c (dx + d.dx) (dy + d.dy) := by
  ext <;> simp only [place, Cell.step_x, Cell.step_y] <;> omega

theorem border_of_step {ex ey : Int} (near : (-1 ≤ dx ∧ dx ≤ 1) ∧ -1 ≤ dy ∧ dy ≤ 1)
    (near' : (-1 ≤ ex ∧ ex ≤ 1) ∧ -1 ≤ ey ∧ ey ≤ 1) (leaves : n ≠ c)
    (same : (place c dx dy).step d = place n ex ey) :
    n = c.step d ∧ dx * d.dx + dy * d.dy = 1 ∧ ex * d.opposite.dx + ey * d.opposite.dy = 1 := by
  rw [step_place] at same
  simp only [place, scale, Cell.mk.injEq] at same
  have apart : n.x ≠ c.x ∨ n.y ≠ c.y := by
    by_contra both
    push Not at both
    exact leaves (Cell.ext both.1 both.2)
  rw [Cell.ext_iff]
  cases d <;> simp only [Cell.step_x, Cell.step_y, Direction.dx, Direction.dy,
    Direction.opposite] at same ⊢ <;> omega

theorem adj_of_marks (marked : (render g cells).get p = mark)
    (marked' : (render g cells).get (p.step d) = mark)
    (leaves : (p.step d).shrink scale ≠ p.shrink scale) :
    (contacts g cells).Adj (p.shrink scale) ((p.step d).shrink scale) := by
  obtain ⟨mem, inked⟩ := inks_of_mark marked
  obtain ⟨mem', inked'⟩ := inks_of_mark marked'
  refine contacts_adj.2 ⟨⟨mem, mem'⟩, ?_⟩
  generalize p.shrink scale = c at inked leaves
  generalize (p.step d).shrink scale = n at inked' leaves
  obtain ⟨r, ink, dx, dy, role, drawn, entry, rfl⟩ := exists_entry inked
  obtain ⟨t, other, ex, ey, role', drawn', entry', same⟩ := exists_entry inked'
  obtain ⟨rfl, border, border'⟩ :=
    border_of_step (near_of_mem_entries entry) (near_of_mem_entries entry') leaves same
  have here := side_of_entry drawn entry border
  have there := side_of_entry drawn' entry' border'
  exact Grid.adj_step.2 (Grid.mem_joints.2 ⟨Grid.inksSide_iff.2 ⟨r, ink, role, drawn, here⟩,
    Grid.inksSide_iff.2 ⟨t, other, role', drawn', there⟩⟩)

theorem reachable_of_areas (marked : (render g cells).get p = mark)
    (reach : (render g cells).areas.Reachable p q) :
    (contacts g cells).Reachable (p.shrink scale) (q.shrink scale) := by
  refine (Grid.mem_of_reachable (p := fun q => (render g cells).get q = mark ∧
    (contacts g cells).Reachable (p.shrink scale) (q.shrink scale)) ?_ reach ⟨marked, ?_⟩).2
  · rintro a b ⟨here, reached⟩ adj
    obtain ⟨-, near, alike⟩ := Grid.areas_adj.1 adj
    have there := alike.symm.trans here
    obtain ⟨d, rfl⟩ := Cell.mem_orthogonal.1 near
    refine ⟨there, ?_⟩
    by_cases stays : (a.step d).shrink scale = a.shrink scale
    · rw [stays]
      exact reached
    · exact reached.trans (adj_of_marks here there stays).reachable
  · rfl

def Drawn (g : Grid) (cells : CellSet) (c : Cell) : Prop :=
  c ∈ cells ∧ ∃ r, g.role? c = some r ∧ r ≠ .stub

theorem exists_ofRole? : (∃ ink, ofRole? r = some ink) ↔ r ≠ .stub := by
  cases r <;> simp [ofRole?]

theorem drawn_inked_iff : Drawn g g.inked c ↔ ∃ r, g.role? c = some r ∧ r ≠ .stub := by
  refine ⟨And.right, fun shown => ⟨?_, shown⟩⟩
  obtain ⟨r, role, -⟩ := shown
  exact Grid.mem_inked.2 ⟨mem_of_role? role, (Window.shows_of_role? role).isInked⟩

theorem Drawn.mark_center (drawn : Drawn g cells c) :
    (render g cells).get (place c 0 0) = mark := by
  obtain ⟨mem, r, role, shown⟩ := drawn
  obtain ⟨ink, drawn⟩ := exists_ofRole?.2 shown
  have covered := covers_center (c := c) drawn
  refine get_render_eq_mark.2 ⟨c, mem, ?_⟩
  rw [inks, role, Option.bind_some, drawn]
  exact covered

theorem drawn_of_mark (marked : (render g cells).get p = mark) :
    Drawn g cells (p.shrink scale) := by
  obtain ⟨mem, inked⟩ := inks_of_mark marked
  obtain ⟨r, ink, dx, dy, role, drawn, -, -⟩ := exists_entry inked
  exact ⟨mem, r, role, exists_ofRole?.1 ⟨ink, drawn⟩⟩

theorem mark_place_iff (starless : ∀ c, g.role? c ≠ some .star) (xNear : -1 ≤ dx ∧ dx ≤ 1)
    (yNear : -1 ≤ dy ∧ dy ≤ 1) : (render g cells).get (place c dx dy) = mark ↔
      (dx = 0 ∧ dy = 0) ∧ Drawn g cells c ∨
        c ∈ cells ∧ ∃ d : Direction, (dx = d.dx ∧ dy = d.dy) ∧ g.inksSide c d := by
  constructor
  · intro marked
    obtain ⟨mem, r, ink, role, drawn, entry⟩ := (get_place_eq_mark xNear yNear).1 marked
    have noStar : r ≠ .star := fun star => starless c (star ▸ role)
    -- Ink of any role but a star lies on the axes: at the center or on one of the sides.
    have straight := straight_of_mem_entries drawn noStar entry rfl
    by_cases center : dx = 0 ∧ dy = 0
    · exact .inl ⟨center, mem, r, role, exists_ofRole?.1 ⟨ink, drawn⟩⟩
    · obtain ⟨d, side⟩ : ∃ d : Direction, dx = d.dx ∧ dy = d.dy := by
        have cases : (dx = 0 ∧ dy = -1) ∨ (dx = 1 ∧ dy = 0) ∨ (dx = 0 ∧ dy = 1) ∨
            (dx = -1 ∧ dy = 0) := by
          simp only at straight
          omega
        rcases cases with north | east | south | west
        · exact ⟨.north, north⟩
        · exact ⟨.east, east⟩
        · exact ⟨.south, south⟩
        · exact ⟨.west, west⟩
      refine .inr ⟨mem, d, side, Grid.inksSide_iff.2 ⟨r, ink, role, drawn, ?_⟩⟩
      obtain ⟨rfl, rfl⟩ := side
      exact side_of_entry drawn entry (by cases d <;> decide)
  · rintro (⟨⟨rfl, rfl⟩, drawn⟩ | ⟨mem, d, ⟨rfl, rfl⟩, inked⟩)
    · exact drawn.mark_center
    · exact mark_side mem inked

/-- The ink of joined cells meets at their border. -/
theorem reachable_of_adj (adj : (contacts g cells).Adj c n) :
    (render g cells).areas.Reachable (place c 0 0) (place n 0 0) := by
  obtain ⟨⟨mem, mem'⟩, d, joint, rfl⟩ := contacts_adj.1 adj
  obtain ⟨here, there⟩ := Grid.mem_joints.1 joint
  have marked := mark_side mem here
  have marked' := mark_side mem' there
  have near (d : Direction) : (-1 ≤ d.dx ∧ d.dx ≤ 1) ∧ -1 ≤ d.dy ∧ d.dy ≤ 1 := by
    cases d <;> decide
  have toCenter := reachable_center marked
  have toCenter' := reachable_center marked'
  rw [shrink_place (near d).1 (near d).2] at toCenter
  rw [shrink_place (near d.opposite).1 (near d.opposite).2] at toCenter'
  refine (toCenter.symm.trans (reachable_of_marks marked marked' (.inr ?_))).trans toCenter'
  refine Cell.mem_orthogonal.2 ⟨d, ?_⟩
  rw [step_place]
  ext <;> simp only [place, scale, Cell.step_x, Cell.step_y, Direction.dx_opposite,
    Direction.dy_opposite] <;> omega

theorem areas_reachable_iff (marked : (render g cells).get p = mark)
    (marked' : (render g cells).get q = mark) :
    (render g cells).areas.Reachable p q ↔
      (contacts g cells).Reachable (p.shrink scale) (q.shrink scale) := by
  refine ⟨reachable_of_areas marked, fun reach => ?_⟩
  refine (reachable_center marked).trans (.trans ?_ (reachable_center marked').symm)
  refine Grid.mem_of_reachable (p := fun n =>
    (render g cells).areas.Reachable (place (p.shrink scale) 0 0) (place n 0 0)) ?_ reach (by rfl)
  exact fun _ _ reached adj => reached.trans (reachable_of_adj adj)

/-! ### Taking the pieces off -/

variable {canvas : Grid} {done rest heads : List Cell} {state : Grid × List CellSet}

structure Heads (canvas : Grid) (p : Cell) : Prop where
  marked : canvas.get p = mark
  first : ∀ q, canvas.areas.Reachable p q → q = p ∨ p.Before q

def IsPiece (canvas : Grid) (p : Cell) (s : CellSet) : Prop :=
  ∀ c, c ∈ s ↔ ∃ q, canvas.areas.Reachable p q ∧ q.shrink scale = c

/-- The pieces taken so far are those of the ink among the fine cells looked at, and the rest of the
canvas is still there. -/
structure Taking (canvas : Grid) (done : List Cell) (state : Grid × List CellSet)
    (heads : List Cell) : Prop where
  size : ∀ p, p ∈ state.1 ↔ p ∈ canvas
  taken : ∀ h ∈ heads, ∀ p, canvas.areas.Reachable h p → state.1.get p = Glyph.blank
  kept : ∀ p, (∀ h ∈ heads, ¬ canvas.areas.Reachable h p) → state.1.get p = canvas.get p
  met : ∀ p ∈ done, canvas.get p = mark → ∃ h ∈ heads, canvas.areas.Reachable h p
  first : ∀ h ∈ heads, h ∈ done ∧ Heads canvas h
  order : heads.Pairwise fun later earlier => earlier.Before later
  pieces : List.Forall₂ (IsPiece canvas) heads state.2

namespace Taking

theorem get_eq_mark_iff (taking : Taking canvas done state heads) :
    state.1.get p = mark ↔ canvas.get p = mark ∧ ∀ h ∈ heads, ¬ canvas.areas.Reachable h p := by
  constructor
  · intro marked
    have free : ∀ h ∈ heads, ¬ canvas.areas.Reachable h p := by
      intro h mem reach
      rw [taking.taken h mem p reach] at marked
      exact absurd marked (by decide)
    exact ⟨(taking.kept p free).symm.trans marked, free⟩
  · rintro ⟨marked, free⟩
    rw [taking.kept p free, marked]

theorem areas_reachable (taking : Taking canvas done state heads) (marked : state.1.get c = mark) :
    state.1.areas.Reachable c p ↔ canvas.areas.Reachable c p := by
  obtain ⟨drawn, free⟩ := taking.get_eq_mark_iff.1 marked
  refine Grid.areas_reachable_congr taking.size (fun p reach => ?_) fun p held => ?_
  · exact taking.kept p fun h mem reach' => free h mem (reach'.trans reach.symm)
  · rw [drawn] at held ⊢
    exact (taking.get_eq_mark_iff.1 held).1

theorem heads_of_cut (taking : Taking canvas done state heads)
    (cut : canvas.cells = done ++ c :: rest) (marked : state.1.get c = mark) : Heads canvas c := by
  obtain ⟨drawn, free⟩ := taking.get_eq_mark_iff.1 marked
  refine ⟨drawn, fun q reach => ?_⟩
  have mem : q ∈ done ++ c :: rest :=
    cut ▸ Grid.mem_cells.2 (Grid.mem_of_areas_reachable (mem_of_mark drawn) reach)
  have ordered := canvas.pairwise_cells
  rw [cut] at ordered
  rcases List.mem_append.1 mem with before | mem
  · -- What has been looked at belongs to a piece that is gone.
    obtain ⟨h, head, reach'⟩ :=
      taking.met q before ((Grid.get_of_areas_reachable reach).trans drawn)
    exact absurd (reach'.trans reach.symm) (free h head)
  · rcases List.mem_cons.1 mem with rfl | after
    · exact .inl rfl
    · exact .inr (List.rel_of_pairwise_cons (List.pairwise_append.1 ordered).2.1 after)

theorem step (taking : Taking canvas done state heads) (cut : canvas.cells = done ++ c :: rest) :
    ∃ next heads', takePiece state c = .ok next ∧ Taking canvas (done ++ [c]) next heads' := by
  unfold takePiece
  by_cases marked : state.1.get c = mark
  · have head := taking.heads_of_cut cut marked
    obtain ⟨drawn, free⟩ := taking.get_eq_mark_iff.1 marked
    obtain ⟨area, filled, -, mem⟩ := Grid.fill_eq Glyph.blank (mem_of_mark marked)
      (by rw [marked]; decide)
    -- The pieces taken before are whole, so the fill sees this one as the canvas shows it.
    have mem (p : Cell) : p ∈ area ↔ canvas.areas.Reachable c p :=
      (mem p).trans (taking.areas_reachable marked)
    refine ⟨_, c :: heads, by rw [if_pos (by rw [marked]; rfl), filled]; rfl, ?_⟩
    refine ⟨fun p => ?_, ?_, fun p untouched => ?_, fun p seen shown => ?_, ?_, ?_, ?_⟩
    · rw [Grid.mem_overwrite, taking.size]
    · rw [List.forall_mem_cons]
      refine ⟨fun p reach => ?_, fun h member p reach => ?_⟩
      · have inside := Grid.mem_of_areas_reachable (mem_of_mark drawn) reach
        rw [Grid.get_overwrite, if_pos ⟨(mem p).2 reach, (taking.size p).2 inside⟩]
      · have off : p ∉ area := fun met =>
          free h member (reach.trans ((mem p).1 met).symm)
        rw [Grid.get_overwrite, if_neg fun both => off both.1, taking.taken h member p reach]
    · obtain ⟨first, others⟩ := List.forall_mem_cons.1 untouched
      rw [Grid.get_overwrite, if_neg fun both => first ((mem p).1 both.1), taking.kept p others]
    · rcases List.mem_append.1 seen with before | here
      · obtain ⟨h, member, reach⟩ := taking.met p before shown
        exact ⟨h, List.mem_cons_of_mem _ member, reach⟩
      · rw [List.mem_singleton.1 here]
        exact ⟨c, List.mem_cons_self .., by rfl⟩
    · rw [List.forall_mem_cons]
      refine ⟨⟨by simp, head⟩, fun h member => ?_⟩
      exact ⟨List.mem_append_left _ (taking.first h member).1, (taking.first h member).2⟩
    · refine List.pairwise_cons.2 ⟨fun h member => ?_, taking.order⟩
      -- Cells are visited in their order, so the heads come in it.
      have ordered := canvas.pairwise_cells
      rw [cut] at ordered
      exact (List.pairwise_append.1 ordered).2.2 h (taking.first h member).1 c
        (List.mem_cons_self ..)
    · refine List.Forall₂.cons (fun n => ?_) taking.pieces
      simp only [CellSet.mem_shrink, CellSet.mem_ofList, mem]
  · refine ⟨state, heads, by rw [if_neg (by simpa using marked)]; rfl, ?_⟩
    refine ⟨taking.size, taking.taken, taking.kept, fun p seen shown => ?_, fun h member => ?_,
      taking.order, taking.pieces⟩
    · rcases List.mem_append.1 seen with before | here
      · exact taking.met p before shown
      · rw [List.mem_singleton.1 here] at shown ⊢
        by_contra free
        push Not at free
        exact marked (taking.get_eq_mark_iff.2 ⟨shown, free⟩)
    · exact ⟨List.mem_append_left _ (taking.first h member).1, (taking.first h member).2⟩

end Taking

/-- A canvas comes apart into its pieces, in the order of their first fine cells. -/
theorem pieces_eq (canvas : Grid) : ∃ heads sets, pieces canvas = .ok sets ∧
    List.Forall₂ (IsPiece canvas) heads sets ∧ heads.Pairwise Cell.Before ∧
    (∀ h ∈ heads, Heads canvas h) ∧
    ∀ p, canvas.get p = mark → ∃ h ∈ heads, canvas.areas.Reachable h p := by
  obtain ⟨⟨left, sets⟩, taken, heads, taking⟩ := foldlM_ok takePiece canvas.cells (canvas, [])
    (fun done state => ∃ heads, Taking canvas done state heads)
    ⟨[], fun _ => Iff.rfl, by simp, by simp, by simp, by simp, .nil, .nil⟩
    fun done c rest state cut ⟨heads, taking⟩ => by
      obtain ⟨next, heads', stepped, later⟩ := taking.step cut
      exact ⟨next, stepped, heads', later⟩
  refine ⟨heads.reverse, sets.reverse, ?_, ?_, ?_, ?_, ?_⟩
  · rw [pieces, taken]
    rfl
  · exact List.rel_reverse taking.pieces
  · exact List.pairwise_reverse.2 taking.order
  · exact fun h mem => (taking.first h (List.mem_reverse.1 mem)).2
  · intro p marked
    obtain ⟨h, mem, reach⟩ := taking.met p (Grid.mem_cells.2 (mem_of_mark marked)) marked
    exact ⟨h, List.mem_reverse.2 mem, reach⟩

/-! ### The pieces of a drawing -/

structure FirstInk (g : Grid) (p : Cell) (s : CellSet) : Prop where
  inked : ∃ c ∈ s, inks g c p
  first : ∀ c ∈ s, ∀ q, inks g c q → q = p ∨ p.Before q

variable {s : CellSet}

theorem IsPiece.mem_iff (piece : IsPiece (render g cells) p s)
    (marked : (render g cells).get p = mark) :
    c ∈ s ↔ Drawn g cells c ∧ (contacts g cells).Reachable (p.shrink scale) c := by
  rw [piece c]
  constructor
  · rintro ⟨q, reach, rfl⟩
    have marked' := (Grid.get_of_areas_reachable reach).trans marked
    exact ⟨drawn_of_mark marked', reachable_of_areas marked reach⟩
  · rintro ⟨drawn, reach⟩
    have near : -1 ≤ (0 : Int) ∧ (0 : Int) ≤ 1 := by decide
    refine ⟨place c 0 0, (areas_reachable_iff marked drawn.mark_center).2 ?_, shrink_place near near⟩
    rwa [shrink_place near near]

theorem Drawn.of_reachable (drawn : Drawn g cells c) (reach : (contacts g cells).Reachable c n) :
    Drawn g cells n := by
  refine Grid.mem_of_reachable (fun a b _ adj => ?_) reach drawn
  obtain ⟨⟨-, mem⟩, d, -, -, -, other, found, -⟩ := adj
  obtain ⟨r, role, inked⟩ := Option.bind_eq_some_iff.1 found
  exact ⟨mem, r, role, exists_ofRole?.1 ⟨other, inked⟩⟩

/-- A piece is all that is joined to any of its cells. -/
theorem IsPiece.reachable_iff (piece : IsPiece (render g cells) p s)
    (marked : (render g cells).get p = mark) (mem : c ∈ s) :
    n ∈ s ↔ (contacts g cells).Reachable c n := by
  obtain ⟨drawn, reach⟩ := (piece.mem_iff marked).1 mem
  rw [piece.mem_iff marked]
  exact ⟨fun ⟨_, reach'⟩ => reach.symm.trans reach',
    fun onward => ⟨drawn.of_reachable onward, reach.trans onward⟩⟩

theorem IsPiece.mem_head (piece : IsPiece (render g cells) p s)
    (marked : (render g cells).get p = mark) : p.shrink scale ∈ s :=
  (piece.mem_iff marked).2 ⟨drawn_of_mark marked, by rfl⟩

theorem Heads.firstInk (head : Heads (render g cells) p) (piece : IsPiece (render g cells) p s) :
    FirstInk g p s := by
  refine ⟨⟨_, piece.mem_head head.marked, (inks_of_mark head.marked).2⟩, fun c mem q inked => ?_⟩
  obtain ⟨drawn, reach⟩ := (piece.mem_iff head.marked).1 mem
  refine head.first q ((areas_reachable_iff head.marked ?_).2 ?_)
  · exact get_render_eq_mark.2 ⟨c, drawn.1, inked⟩
  · rwa [shrink_of_inks inked]

theorem Heads.apart (head : Heads canvas p) (before : q.Before p) :
    ¬ canvas.areas.Reachable q p := by
  intro reach
  rcases head.first q reach.symm with rfl | after
  · exact before.asymm before
  · exact before.asymm after

/-- A drawing whose drawn cells are all connected is one piece. -/
theorem pieces_of_connected (some : ∃ c, Drawn g cells c)
    (connected : ∀ a b, Drawn g cells a → Drawn g cells b → (contacts g cells).Reachable a b) :
    ∃ s, pieces (render g cells) = .ok [s] ∧ ∀ c, c ∈ s ↔ Drawn g cells c := by
  obtain ⟨heads, sets, taken, pieces, order, head, met⟩ := pieces_eq (render g cells)
  obtain ⟨c, drawn⟩ := some
  obtain ⟨p, mem, -⟩ := met _ drawn.mark_center
  -- No second head lies before or behind a first one.
  have alone (q : Cell) (member : q ∈ heads) (r : Cell) (member' : r ∈ heads) : ¬ q.Before r := by
    intro before
    refine (head r member').apart before ((areas_reachable_iff (head q member).marked
      (head r member').marked).2 (connected _ _ ?_ ?_))
    · exact drawn_of_mark (head q member).marked
    · exact drawn_of_mark (head r member').marked
  obtain ⟨s, rfl, piece⟩ : ∃ s, sets = [s] ∧ IsPiece (render g cells) p s := by
    cases pieces with
    | nil => cases mem
    | @cons q s rest others here tail =>
      cases tail with
      | nil =>
        rw [List.mem_singleton.1 mem]
        exact ⟨s, rfl, here⟩
      | @cons r t _ _ _ _ =>
        exact absurd (List.rel_of_pairwise_cons order (List.mem_cons_self ..))
          (alone q (by simp) r (by simp))
  refine ⟨s, taken, fun c => ?_⟩
  have first := (head p mem).marked
  rw [piece.mem_iff first]
  exact ⟨fun both => both.1, fun drawn => ⟨drawn, connected _ _ (drawn_of_mark first) drawn⟩⟩

theorem mem_pieces_iff {sets : List CellSet} (found : pieces (render g cells) = .ok sets) :
    (∃ s ∈ sets, c ∈ s) ↔ Drawn g cells c := by
  obtain ⟨heads, sets', taken, pieces, -, head, met⟩ := pieces_eq (render g cells)
  obtain rfl : sets' = sets := Except.ok.inj (taken.symm.trans found)
  constructor
  · rintro ⟨s, mem, member⟩
    obtain ⟨p, first, piece⟩ := forall₂_mem pieces mem
    exact ((piece.mem_iff (head p first).marked).1 member).1
  · intro drawn
    obtain ⟨p, mem, reach⟩ := met _ drawn.mark_center
    obtain ⟨s, member, piece⟩ := forall₂_mem pieces.flip mem
    have near : -1 ≤ (0 : Int) ∧ (0 : Int) ≤ 1 := by decide
    exact ⟨s, member, (piece c).2 ⟨_, reach, shrink_place near near⟩⟩

/-- The canvas of a drawing comes apart into the components of its drawn cells, in the order of
their first ink. -/
theorem pieces_render (g : Grid) (cells : CellSet) : ∃ sets, pieces (render g cells) = .ok sets ∧
    sets.Pairwise (fun s t => ∀ c ∈ s, c ∉ t) ∧
    (∀ c, (∃ s ∈ sets, c ∈ s) ↔ Drawn g cells c) ∧
    (∀ s ∈ sets, (∃ c, c ∈ s) ∧ ∀ c ∈ s, ∀ n, n ∈ s ↔ (contacts g cells).Reachable c n) ∧
    ∃ firsts, List.Forall₂ (FirstInk g) firsts sets ∧ firsts.Pairwise Cell.Before := by
  obtain ⟨heads, sets, taken, pieces, order, head, -⟩ := pieces_eq (render g cells)
  have both := (List.forall₂_and_left heads sets).2 ⟨head, pieces⟩
  refine ⟨sets, taken, ?_, fun c => ?_, fun s mem => ?_, heads, ?_, order⟩
  · refine pairwise_of_forall₂ both order fun p q s t before ⟨first, piece⟩ ⟨second, piece'⟩ => ?_
    intro c mem mem'
    obtain ⟨-, reach⟩ := (piece.mem_iff first.marked).1 mem
    obtain ⟨-, reach'⟩ := (piece'.mem_iff second.marked).1 mem'
    exact second.apart before
      ((areas_reachable_iff first.marked second.marked).2 (reach.trans reach'.symm))
  · exact mem_pieces_iff taken
  · obtain ⟨p, -, first, piece⟩ := forall₂_mem both mem
    exact ⟨⟨_, piece.mem_head first.marked⟩,
      fun c member n => piece.reachable_iff first.marked member⟩
  · exact both.imp fun p s ⟨first, piece⟩ => first.firstInk piece

end Ink

end Linework
