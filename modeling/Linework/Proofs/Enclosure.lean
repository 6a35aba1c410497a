import Linework.Proofs.Canvas
import Linework.Proofs.Joint

/-! Lines that meet in even numbers enclose an area.

A ray sent west from a fine cell crosses lines that run south. Whether their number is odd stays the
same from one blank to the next, because at every cell that the ray passes on the way south an even
number of lines meet. It is even at the corner of the canvas and odd just inside the westernmost
line, so a fill from that corner leaves a blank.
-/

set_option autoImplicit false

namespace Linework

namespace Grid

open Ink (render place inks)

variable {g : Grid} {cells : CellSet} {c n p : Cell} {d : Direction}

theorem mem_joints_opposite : d.opposite ∈ g.joints (c.step d) ↔ d ∈ g.joints c := by
  rw [mem_joints, mem_joints, Cell.step_step_opposite, Direction.opposite_opposite, and_comm]

theorem mem_of_mem_joints (joint : d ∈ g.joints c) : c ∈ g := by
  by_contra out
  have inked := (mem_joints.1 joint).1
  simp [not_inksSide_of_empty (.inr (get_of_not_mem out))] at inked

section Crossings

variable {lines : SimpleGraph Cell} [DecidableRel lines.Adj]

def leaving (lines : SimpleGraph Cell) [DecidableRel lines.Adj] (c : Cell) : List Direction :=
  Direction.all.filter fun d => lines.Adj c (c.step d)

theorem mem_leaving : d ∈ leaving lines c ↔ lines.Adj c (c.step d) := by
  simp [leaving, Direction.mem_all]

theorem leaving_web (g : Grid) (c : Cell) : leaving g.web c = g.joints c := by
  refine List.filter_congr fun d _ => ?_
  rw [Bool.eq_iff_iff, decide_eq_true_eq, adj_step, mem_joints, Bool.and_eq_true]

theorem mem_leaving_opposite : d.opposite ∈ leaving lines (c.step d) ↔ d ∈ leaving lines c := by
  rw [mem_leaving, mem_leaving, Cell.step_step_opposite, lines.adj_comm]

/-- Whether an odd number of lines runs south from the first cells of a row. -/
def crossings (lines : SimpleGraph Cell) [DecidableRel lines.Adj] (row : Int) : Nat → Bool
  | 0 => false
  | column + 1 => crossings lines row column ^^ decide (.south ∈ leaving lines ⟨column, row⟩)

theorem crossings_eq_false {row : Int} {columns : Nat}
    (bare : ∀ column < columns, Direction.south ∉ leaving lines ⟨(column : Nat), row⟩) :
    crossings lines row columns = false := by
  induction columns with
  | zero => rfl
  | succ column ih =>
    rw [crossings, ih fun other below => bare other (Nat.lt_succ_of_lt below),
      decide_eq_false (bare column (Nat.lt_succ_self _))]
    rfl

theorem length_leaving (c : Cell) : (leaving lines c).length
    = (decide (.north ∈ leaving lines c)).toNat + (decide (.east ∈ leaving lines c)).toNat
      + (decide (.south ∈ leaving lines c)).toNat + (decide (.west ∈ leaving lines c)).toNat := by
  have joined (d : Direction) : (decide (d ∈ leaving lines c)).toNat
      = if lines.Adj c (c.step d) then 1 else 0 := by
    by_cases adj : lines.Adj c (c.step d)
    · rw [decide_eq_true (mem_leaving.2 adj), if_pos adj]
      rfl
    · rw [decide_eq_false (mt mem_leaving.1 adj), if_neg adj]
      rfl
  rw [joined, joined, joined, joined, leaving, ← List.countP_eq_length_filter, Direction.all]
  simp only [List.countP_cons, List.countP_nil, decide_eq_true_eq]
  omega

theorem xor_leaving (even : (leaving lines c).length % 2 = 0) :
    (decide (.north ∈ leaving lines c) ^^ decide (.east ∈ leaving lines c)
      ^^ decide (.south ∈ leaving lines c) ^^ decide (.west ∈ leaving lines c)) = false := by
  rw [length_leaving] at even
  revert even
  generalize decide (Direction.north ∈ leaving lines c) = north
  generalize decide (Direction.east ∈ leaving lines c) = east
  generalize decide (Direction.south ∈ leaving lines c) = south
  generalize decide (Direction.west ∈ leaving lines c) = west
  revert north east south west
  decide

structure Even (g : Grid) (lines : SimpleGraph Cell) [DecidableRel lines.Adj] : Prop where
  within : lines ≤ g.web
  even : ∀ c, (leaving lines c).length % 2 = 0

namespace Even

variable (lined : g.Even lines)
include lined

theorem joint (mem : d ∈ leaving lines c) : d ∈ g.joints c :=
  adj_step.1 (lined.within (mem_leaving.1 mem))

theorem mem_of_leaving (mem : d ∈ leaving lines c) : c ∈ g := mem_of_mem_joints (lined.joint mem)

/-- From one row to the next, the number of crossings changes by the lines that meet in between,
all of them in even numbers save for the one that goes on past the last cell. -/
theorem crossings_xor (row : Int) (columns : Nat) :
    (crossings lines row columns ^^ crossings lines (row + 1) columns)
      = decide (.west ∈ leaving lines ⟨columns, row + 1⟩) := by
  induction columns with
  | zero =>
    have edge : Direction.west ∉ leaving lines ⟨(0 : Nat), row + 1⟩ := fun joint => by
      have inside := lined.mem_of_leaving (mem_leaving_opposite.2 joint)
      have edge : (0 : Int) ≤ 0 + -1 := inside.1.1
      omega
    rw [decide_eq_false edge]
    rfl
  | succ column ih =>
    have above : Direction.south ∈ leaving lines ⟨column, row⟩
        ↔ Direction.north ∈ leaving lines ⟨column, row + 1⟩ := by
      rw [← mem_leaving_opposite]
      simp [Cell.step, Cell.translate, Direction.dx, Direction.dy, Direction.opposite]
    have beyond : Direction.west ∈ leaving lines ⟨(column + 1 : Nat), row + 1⟩
        ↔ Direction.east ∈ leaving lines ⟨column, row + 1⟩ := by
      rw [← mem_leaving_opposite (c := ⟨column, row + 1⟩)]
      simp [Cell.step, Cell.translate, Direction.dx, Direction.dy, Direction.opposite]
    -- The cell passed in the lower row has an even number of joints.
    have sum := xor_leaving (lined.even ⟨column, row + 1⟩)
    simp only [crossings, above, beyond]
    revert ih sum
    generalize crossings lines row column = here
    generalize crossings lines (row + 1) column = below
    generalize decide (Direction.north ∈ leaving lines ⟨column, row + 1⟩) = north
    generalize decide (Direction.east ∈ leaving lines ⟨column, row + 1⟩) = east
    generalize decide (Direction.south ∈ leaving lines ⟨column, row + 1⟩) = south
    generalize decide (Direction.west ∈ leaving lines ⟨column, row + 1⟩) = west
    revert here below north east south west
    decide

theorem exists_first_column (joint : d ∈ leaving lines c) :
    ∃ (column : Nat) (row : Int), leaving lines ⟨column, row⟩ ≠ [] ∧
      ∀ other < column, ∀ row, leaving lines ⟨(other : Nat), row⟩ = [] := by
  classical
  have drawn : ∃ column : Nat, ∃ row, leaving lines ⟨column, row⟩ ≠ [] := by
    refine ⟨c.x.toNat, c.y, List.ne_nil_of_mem (a := d) ?_⟩
    rwa [Int.toNat_of_nonneg (lined.mem_of_leaving joint).1.1]
  obtain ⟨row, first⟩ := Nat.find_spec drawn
  refine ⟨Nat.find drawn, row, first, fun other less row => ?_⟩
  by_contra joined
  exact Nat.find_min drawn less ⟨row, joined⟩

theorem exists_first_southward (joint : d ∈ leaving lines c) :
    ∃ (column : Nat) (row : Int), Direction.south ∈ leaving lines ⟨column, row⟩ ∧
      ∀ other < column, Direction.south ∉ leaving lines ⟨(other : Nat), row⟩ := by
  obtain ⟨column, row, joined, before⟩ := lined.exists_first_column joint
  have bare (row : Int) : ∀ other < column,
      Direction.south ∉ leaving lines ⟨(other : Nat), row⟩ := by
    intro other less
    rw [before other less]
    exact List.not_mem_nil
  have noWest : Direction.west ∉ leaving lines ⟨column, row⟩ := fun west => by
    have back := mem_leaving_opposite.2 west
    have left : (0 : Int) ≤ (column : Int) + -1 := (lined.mem_of_leaving back).1.1
    have same : Cell.step ⟨column, row⟩ .west = ⟨((column - 1 : Nat) : Int), row⟩ := by
      ext <;> simp [Direction.dx, Direction.dy]
      omega
    rw [same, before _ (by omega)] at back
    cases back
  have sum := xor_leaving (lined.even ⟨column, row⟩)
  -- Of the four lines that may meet here, the one to the west is missing and the number is even.
  by_cases south : Direction.south ∈ leaving lines ⟨column, row⟩
  · exact ⟨column, row, south, bare row⟩
  · have north : Direction.north ∈ leaving lines ⟨column, row⟩ := by
      by_contra noNorth
      simp only [noNorth, noWest, south, decide_false, Bool.false_xor, Bool.xor_false,
        decide_eq_false_iff_not] at sum
      obtain ⟨e, mem⟩ := List.exists_mem_of_ne_nil _ joined
      cases e <;> contradiction
    have above := mem_leaving_opposite.2 north
    have same : Cell.step ⟨column, row⟩ .north = ⟨column, row - 1⟩ := by
      ext <;> simp [Direction.dx, Direction.dy]
      omega
    rw [same] at above
    exact ⟨column, row - 1, above, bare (row - 1)⟩

end Even

/-- Whether a ray west from a fine cell crosses an odd number of lines. -/
def encircled (lines : SimpleGraph Cell) [DecidableRel lines.Adj] (p : Cell) : Bool :=
  crossings lines ((p.y - 1) / 3) ((p.x + 1) / 3).toNat

end Crossings

/-- The lines of a drawing are in its ink: `cells` has every cell that is joined to another, and no
star hides them. -/
structure Inked (g : Grid) (cells : CellSet) : Prop where
  drawn : ∀ c d, d ∈ g.joints c → c ∈ cells
  starless : ∀ c, g.role? c ≠ some .star

namespace Inked

variable {lines : SimpleGraph Cell} [DecidableRel lines.Adj] (inked : g.Inked cells)
include inked

/-- Between the middles of two joined cells there is no blank. -/
theorem get_ne_blank (joint : d ∈ g.joints c) {t : Int} (between : t = 0 ∨ t = 1 ∨ t = 2)
    (onLine : p = place c (t * d.dx) (t * d.dy)) : (render g cells).get p ≠ Glyph.blank := by
  have reached := mem_joints.1 joint
  have back := mem_joints_opposite.2 joint
  simp only [inksSide, Option.any_eq_true] at reached
  obtain ⟨⟨ink, found, side⟩, ⟨beyond, foundBeyond, sideBeyond⟩⟩ := reached
  obtain ⟨r, -, drawn⟩ := Option.bind_eq_some_iff.1 found
  -- The center of the cell, its side, and the side of the cell beyond.
  rcases between with rfl | rfl | rfl
  · refine Ink.get_render_ne_blank (inked.drawn c d joint) found ?_
    rw [onLine, Int.zero_mul, Int.zero_mul]
    exact Ink.covers_center drawn
  · refine Ink.get_render_ne_blank (inked.drawn c d joint) found ?_
    rw [onLine, Int.one_mul, Int.one_mul]
    exact Ink.covers_side side
  · refine Ink.get_render_ne_blank (inked.drawn _ _ back) foundBeyond ?_
    have same : p = place (c.step d) d.opposite.dx d.opposite.dy := by
      rw [onLine]
      simp only [place, Ink.scale, Cell.step_x, Cell.step_y, Direction.dx_opposite,
        Direction.dy_opposite]
      congr 1 <;> omega
    rw [same]
    exact Ink.covers_side sideBeyond

theorem get_corner (dx dy : Int) (mem : c ∈ g) (xCorner : dx = -1 ∨ dx = 1)
    (yCorner : dy = -1 ∨ dy = 1) : (render g cells).get (place c dx dy) = Glyph.blank :=
  Ink.get_place_corner mem (inked.starless c) xCorner yCorner

theorem encircled_east (lined : g.Even lines) (here : (render g cells).get p = Glyph.blank) :
    encircled lines p.east = encircled lines p := by
  have inside := mem_of_get_ne_outside (by rw [here]; decide)
  have left : 0 ≤ p.x := inside.1.1
  -- Only from the middle of a cell does the ray grow by a line that runs south.
  by_cases middle : p.x % 3 = 1
  · have clear : Direction.south ∉ leaving lines ⟨((p.x + 1) / 3).toNat, (p.y - 1) / 3⟩ := by
      intro joint
      refine inked.get_ne_blank (p := p) (t := (p.y - 1) % 3) (lined.joint joint) (by omega) ?_ here
      ext
      · simp only [place, Ink.scale, Direction.dx]
        omega
      · simp only [place, Ink.scale, Direction.dy]
        omega
    have next : ((p.east.x + 1) / 3).toNat = ((p.x + 1) / 3).toNat + 1 := by
      simp only [Cell.east, Cell.step_x, Direction.dx]
      omega
    have row : p.east.y = p.y := by simp [Cell.east, Direction.dy]
    rw [encircled, next, row, crossings, decide_eq_false clear, Bool.xor_false, encircled]
  · have same : ((p.east.x + 1) / 3).toNat = ((p.x + 1) / 3).toNat := by
      simp only [Cell.east, Cell.step_x, Direction.dx]
      omega
    have row : p.east.y = p.y := by simp [Cell.east, Direction.dy]
    rw [encircled, same, row, encircled]

theorem encircled_south (lined : g.Even lines)
    (there : (render g cells).get p.south = Glyph.blank) :
    encircled lines p.south = encircled lines p := by
  have inside := mem_of_get_ne_outside (by rw [there]; decide)
  have left : 0 ≤ p.south.x := inside.1.1
  have column : p.south.x = p.x := by simp [Cell.south, Direction.dx]
  have row : p.south.y = p.y + 1 := by simp [Cell.south, Direction.dy]
  -- From the middle of a cell down, the ray counts the lines of its own row, above it those of the
  -- row before.
  by_cases middle : p.y % 3 = 0
  · have clear : Direction.west ∉ leaving lines ⟨((p.x + 1) / 3).toNat, (p.y - 1) / 3 + 1⟩ := by
      intro joint
      refine inked.get_ne_blank (p := p.south) (t := 2 - (p.x + 1) % 3) (lined.joint joint)
        (by omega) ?_ there
      ext
      · simp only [place, Ink.scale, Direction.dx]
        omega
      · simp only [place, Ink.scale, Direction.dy]
        omega
    have next : (p.south.y - 1) / 3 = (p.y - 1) / 3 + 1 := by omega
    have change := lined.crossings_xor ((p.y - 1) / 3) ((p.x + 1) / 3).toNat
    rw [decide_eq_false clear] at change
    rw [encircled, next, column, encircled]
    exact (by simpa using change : _ = _).symm
  · have same : (p.south.y - 1) / 3 = (p.y - 1) / 3 := by omega
    rw [encircled, same, column, encircled]

/-- All blanks that a fill reaches from a blank outside lie outside. -/
theorem encircled_orthogonal (lined : g.Even lines)
    (here : (render g cells).get p = Glyph.blank) (there : (render g cells).get n = Glyph.blank)
    (near : n ∈ p.orthogonal) : encircled lines n = encircled lines p := by
  obtain ⟨d, rfl⟩ := Cell.mem_orthogonal.1 near
  cases d with
  | east => exact inked.encircled_east lined here
  | south => exact inked.encircled_south lined there
  | west =>
    have back : (p.step .west).east = p := Cell.step_step_opposite p .west
    rw [← inked.encircled_east lined there, back]
  | north =>
    have back : (p.step .north).south = p := Cell.step_step_opposite p .north
    have same := inked.encircled_south (p := p.step .north) lined (by rwa [back])
    rw [← same, back]

/-- A fill from the corner of the canvas does not come inside. -/
theorem fill_leaves_blank (lined : g.Even lines) (joint : d ∈ leaving lines c) :
    ∃ filled area, (render g cells).fill ⟨0, 0⟩ Ink.mark = .ok (filled, area) ∧
      filled.hasBlank := by
  obtain ⟨column, row, south, first⟩ := lined.exists_first_southward joint
  have mem := lined.mem_of_leaving south
  have corner : (render g cells).get ⟨0, 0⟩ = Glyph.blank := by
    refine inked.get_corner (c := ⟨0, 0⟩) (-1) (-1) ?_ (.inl rfl) (.inl rfl)
    have bounds := mem_def.1 mem
    simp only [mem_def]
    omega
  -- South-east of the first line that runs south lies a blank with just that line to its west.
  have within := inked.get_corner 1 1 mem (.inr rfl) (.inr rfl)
  have around : encircled lines (place ⟨column, row⟩ 1 1) = true := by
    have line : ((place ⟨column, row⟩ 1 1).y - 1) / 3 = row := by
      simp only [place, Ink.scale]
      omega
    have columns : (((place ⟨column, row⟩ 1 1).x + 1) / 3).toNat = column + 1 := by
      simp only [place, Ink.scale]
      omega
    rw [encircled, line, columns, crossings, crossings_eq_false first, decide_eq_true south]
    rfl
  obtain ⟨filled, area, done, unchanged⟩ := fill_unchanged (render g cells) ⟨0, 0⟩ Ink.mark
    (fun n => (render g cells).get n = Glyph.blank ∧ encircled lines n = false)
    (mem_of_get_ne_outside (by rw [corner]; decide))
    (fun p n outside near blank => by
      rw [corner] at blank
      exact ⟨blank, (inked.encircled_orthogonal lined outside.1 blank near).trans outside.2⟩)
    ⟨corner, rfl⟩
  refine ⟨filled, area, done, hasBlank_of_get (c := place ⟨column, row⟩ 1 1) ?_⟩
  rw [unchanged _ (by simp [around]), within]

end Inked

end Grid

end Linework
