import Linework.Proofs.Gap
import Linework.Proofs.Table
import Mathlib.Data.List.Nodup
import Mathlib.Data.List.ProdSigma

/-! The boxes of a table are what a reduction keeps of it.

On the canvas a table is drawn again, three times as fine. The regions of the canvas are the insides
of its boxes and all that lies around it, so its outlines are the borders of the boxes and its own
border. The boxes together fill the latter, which goes if there are two of them at least.
-/

set_option autoImplicit false

namespace Linework

open CellSet (Extent)

/-- Where every value belongs to an entry of a list and every entry has just one value, the entries
can be put in the order of the values. -/
theorem exists_perm_forall₂ {α β : Type} {related : α → β → Prop} {xs : List α} {ys : List β}
    (nodup : xs.Nodup) (apart : ys.Pairwise fun y z => ∀ x, related x y → ¬ related x z)
    (single : ∀ x ∈ xs, ∀ z ∈ xs, ∀ y, related x y → related z y → x = z)
    (some : ∀ y ∈ ys, ∃ x ∈ xs, related x y) (all : ∀ x ∈ xs, ∃ y ∈ ys, related x y) :
    ∃ zs, zs.Perm xs ∧ List.Forall₂ related zs ys := by
  -- One partner for each entry of `ys`; that every entry of `xs` is one follows in the end.
  obtain ⟨zs, within, found⟩ : ∃ zs, zs ⊆ xs ∧ List.Forall₂ related zs ys := by
    clear apart all
    induction ys with
    | nil => exact ⟨[], List.nil_subset _, .nil⟩
    | cons y rest ih =>
      obtain ⟨first, others⟩ := List.forall_mem_cons.1 some
      obtain ⟨x, mem, here⟩ := first
      obtain ⟨zs, within, found⟩ := ih others
      exact ⟨x :: zs, List.cons_subset.2 ⟨mem, within⟩, .cons here found⟩
  have distinct : zs.Nodup := by
    refine pairwise_of_forall₂ found.flip apart fun y z x w away here there same => ?_
    exact away x here (same ▸ there)
  refine ⟨zs, (List.perm_ext_iff_of_nodup distinct nodup).2 fun x => ⟨(within ·), ?_⟩, found⟩
  intro mem
  obtain ⟨y, member, here⟩ := all x mem
  obtain ⟨z, place, there⟩ := forall₂_mem found member
  rwa [single x mem z (within place) y here there]

/-! ### Edges that are borders -/

def CellSet.Extent.border (e : Extent) : Set Cell := {c | e.Borders c}

theorem CellSet.Extent.border_inj {e f : Extent} (roomy : e.Roomy) (roomy' : f.Roomy)
    (same : e.border = f.border) : e = f := by
  have iff (c : Cell) : e.Borders c ↔ f.Borders c := Set.ext_iff.1 same c
  have tight' : f.Tight e.Borders := by
    rw [funext fun c => propext (iff c)]
    exact roomy'.tight
  exact roomy.tight.unique tight' (fun c border => border.1) fun c border => ((iff c).1 border).1

/-- A rectangle on the canvas, its sides in the middles of squares. -/
def CellSet.Extent.fine (e : Extent) : Extent := ⟨Ink.place e.least 0 0, Ink.place e.greatest 0 0⟩

namespace Outline

variable {canvas : Grid} {e : Extent} {c p : Cell}

theorem borders_shrink (borders : e.fine.Borders p) : e.Borders (p.shrink Ink.scale) := by
  simp only [Extent.Borders, Extent.Spans, Extent.fine, Ink.place, Ink.scale, Cell.shrink] at *
  omega

theorem borders_center (borders : e.Borders c) : e.fine.Borders (Ink.place c 0 0) := by
  simp only [Extent.Borders, Extent.Spans, Extent.fine, Ink.place, Ink.scale] at *
  omega

theorem exists_inside (roomy : e.Roomy) (borders : e.Borders c) : ∃ n q, e.fine.Borders n ∧
    e.fine.Holds q ∧ n ∈ q.orthogonal ∧ n.shrink Ink.scale = c := by
  -- The place inside that is the nearest to the middle of the square.
  obtain ⟨q, here⟩ : ∃ q : Cell,
      q.x = max (3 * e.least.x + 2) (min (3 * e.greatest.x) (3 * c.x + 1)) ∧
      q.y = max (3 * e.least.y + 2) (min (3 * e.greatest.y) (3 * c.y + 1)) := ⟨⟨_, _⟩, rfl, rfl⟩
  have holds : e.fine.Holds q := by
    simp only [Extent.Holds, Extent.fine, Ink.place, Ink.scale, Extent.Roomy] at *
    omega
  have toward : ∃ d, e.fine.Borders (q.step d) ∧ (q.step d).shrink Ink.scale = c := by
    simp only [Extent.Roomy] at roomy
    simp only [Extent.Borders, Extent.Spans] at borders
    obtain ⟨spans, left | right | top | bottom⟩ := borders <;>
      [refine ⟨.west, ?_⟩; refine ⟨.east, ?_⟩; refine ⟨.north, ?_⟩; refine ⟨.south, ?_⟩] <;>
      simp only [Extent.Borders, Extent.Spans, Extent.fine, Ink.place, Ink.scale, Cell.shrink,
        Cell.step_x, Cell.step_y, Direction.dx, Direction.dy, Cell.ext_iff] <;>
      omega
  obtain ⟨d, borders, same⟩ := toward
  exact ⟨q.step d, q, borders, holds, Cell.mem_orthogonal.2 ⟨d, rfl⟩, same⟩

theorem exists_outside (borders : e.Borders c) : ∃ d, ¬ e.Spans (c.step d) := by
  simp only [Extent.Borders, Extent.Spans] at borders
  obtain ⟨spans, left | right | top | bottom⟩ := borders <;>
    [refine ⟨.west, ?_⟩; refine ⟨.east, ?_⟩; refine ⟨.north, ?_⟩; refine ⟨.south, ?_⟩] <;>
    simp only [Extent.Spans, Cell.step_x, Cell.step_y, Direction.dx, Direction.dy] <;>
    omega

section Edge

variable (marked : ∀ p, e.fine.Borders p → canvas.get p = Ink.mark)
include marked

/-- The edge of the inside of a rectangle is its border. -/
theorem edge_holds (roomy : e.Roomy) (clear : ∀ p, e.fine.Holds p → canvas.get p ≠ Ink.mark) :
    edge canvas {q | e.fine.Holds q} = e.border := by
  ext c
  constructor
  · rintro ⟨n, inked, ⟨q, holds, near⟩, rfl⟩
    refine borders_shrink ((Extent.spans_iff.1 (holds.spans_of_near near)).resolve_right ?_)
    exact fun inside => clear n inside inked
  · intro borders
    obtain ⟨n, q, side, holds, near, same⟩ := exists_inside roomy borders
    exact ⟨n, marked n side, ⟨q, holds, near⟩, same⟩

/-- The edge of all that lies around a rectangle is its border. -/
theorem edge_around (within : ∀ p, canvas.get p = Ink.mark → e.fine.Spans p)
    (margin : ∀ p d, e.fine.Spans p → p.step d ∈ canvas) :
    edge canvas {q | q ∈ canvas ∧ ¬ e.fine.Spans q} = e.border := by
  ext c
  constructor
  · rintro ⟨n, inked, ⟨q, ⟨-, out⟩, near⟩, rfl⟩
    have spans := within n inked
    refine borders_shrink ((Extent.spans_iff.1 spans).resolve_right fun holds => out ?_)
    exact holds.spans_of_near (Cell.mem_orthogonal_comm.1 near)
  · intro borders
    have side := borders_center borders
    obtain ⟨d, out⟩ := exists_outside side
    refine ⟨_, marked _ side, ⟨_, ⟨margin _ d side.1, out⟩, ?_⟩, ?_⟩
    · exact Cell.mem_orthogonal_comm.1 (Cell.mem_orthogonal.2 ⟨d, rfl⟩)
    · exact Ink.shrink_place (by decide) (by decide)

end Edge

end Outline

namespace Table

variable {t : Table} {canvas : Grid} {s : CellSet} {e : Extent} {c p q : Cell} {i j : Nat}

def box (t : Table) (i j : Nat) : Extent :=
  ⟨⟨t.columns.line i, t.rows.line j⟩, ⟨t.columns.line (i + 1), t.rows.line (j + 1)⟩⟩

def boxes (t : Table) : List Extent :=
  (List.range t.columns.count ×ˢ List.range t.rows.count).map fun place => t.box place.1 place.2

def outer (t : Table) : Extent :=
  ⟨⟨t.columns.line 0, t.rows.line 0⟩,
    ⟨t.columns.line t.columns.count, t.rows.line t.rows.count⟩⟩

theorem mem_boxes : e ∈ t.boxes ↔ ∃ i < t.columns.count, ∃ j < t.rows.count, t.box i j = e := by
  simp only [boxes, List.mem_map, Prod.exists, List.mem_product, List.mem_range]
  exact ⟨fun ⟨i, j, ⟨column, row⟩, same⟩ => ⟨i, column, j, row, same⟩,
    fun ⟨i, column, j, row, same⟩ => ⟨i, j, ⟨column, row⟩, same⟩⟩

theorem spans_outer : t.outer.Spans c ↔ t.columns.Spans c.x ∧ t.rows.Spans c.y := Iff.rfl

theorem corner_mem (t : Table) : ⟨0, 0⟩ ∈ t.grid := by
  have column := (Ruling.rules_line (r := t.columns) (Nat.zero_le _)).spans.bounds
  have row := (Ruling.rules_line (r := t.rows) (Nat.zero_le _)).spans.bounds
  simp only [Grid.mem_def, grid, Grid.tabulate]
  omega

theorem step_mem (spans : t.outer.Spans c) (d : Direction) : c.step d ∈ t.grid := by
  have column := (spans_outer.1 spans).1.bounds
  have row := (spans_outer.1 spans).2.bounds
  simp only [Grid.mem_def, grid, Grid.tabulate, Cell.step_x, Cell.step_y]
  cases d <;> simp only [Direction.dx, Direction.dy] <;> omega

structure Frames (t : Table) (e : Extent) : Prop where
  roomy : e.Roomy
  columns : t.columns.Rules e.least.x ∧ t.columns.Rules e.greatest.x
  rows : t.rows.Rules e.least.y ∧ t.rows.Rules e.greatest.y

theorem frames_outer (t : Table) : t.Frames t.outer where
  roomy := ⟨t.columns.first_lt_last, t.rows.first_lt_last⟩
  columns := ⟨Ruling.rules_line (Nat.zero_le _), Ruling.rules_line (Nat.le_refl _)⟩
  rows := ⟨Ruling.rules_line (Nat.zero_le _), Ruling.rules_line (Nat.le_refl _)⟩

theorem frames_box (column : i < t.columns.count) (row : j < t.rows.count) :
    t.Frames (t.box i j) where
  roomy := ⟨Ruling.line_succ column, Ruling.line_succ row⟩
  columns := ⟨Ruling.rules_line (Nat.le_of_lt column), Ruling.rules_line column⟩
  rows := ⟨Ruling.rules_line (Nat.le_of_lt row), Ruling.rules_line row⟩

theorem frames_of_mem (mem : e ∈ t.boxes) : t.Frames e := by
  obtain ⟨i, column, j, row, rfl⟩ := mem_boxes.1 mem
  exact frames_box column row

theorem frames_of_kind (kind : e ∈ t.boxes ∨ e = t.outer) : t.Frames e := by
  rcases kind with mem | rfl
  · exact frames_of_mem mem
  · exact t.frames_outer

namespace Frames

variable (frames : t.Frames e)
include frames

theorem spans (spans : e.Spans c) : t.columns.Spans c.x ∧ t.rows.Spans c.y := by
  obtain ⟨⟨west, east⟩, north, south⟩ := spans
  exact ⟨⟨Int.le_trans frames.columns.1.spans.1 west, Int.le_trans east frames.columns.2.spans.2⟩,
    Int.le_trans frames.rows.1.spans.1 north, Int.le_trans south frames.rows.2.spans.2⟩

theorem lined (borders : e.Borders c) : t.Lined c := by
  obtain ⟨horizontal, vertical⟩ := frames.spans borders.1
  rw [lined_iff]
  rcases borders.2 with left | right | top | bottom
  · exact .inr ⟨left ▸ frames.columns.1, vertical⟩
  · exact .inr ⟨right ▸ frames.columns.2, vertical⟩
  · exact .inl ⟨top ▸ frames.rows.1, horizontal⟩
  · exact .inl ⟨bottom ▸ frames.rows.2, horizontal⟩

theorem runs {d : Direction} (borders : e.Borders c) (along : Grid.Along e c d) : t.Runs d c := by
  obtain ⟨horizontal, vertical⟩ := frames.spans borders.1
  obtain ⟨-, side⟩ := along
  unfold Runs
  split at side <;> rename_i level
  · rw [if_pos level]
    refine ⟨?_, horizontal⟩
    rcases side with top | bottom
    · exact top ▸ frames.rows.1
    · exact bottom ▸ frames.rows.2
  · rw [if_neg level]
    refine ⟨?_, vertical⟩
    rcases side with left | right
    · exact left ▸ frames.columns.1
    · exact right ▸ frames.columns.2

theorem fence : t.grid.Fence e where
  roomy := frames.roomy
  inside c borders := by
    obtain ⟨d, runs⟩ := frames.lined borders
    exact runs.mem_grid
  plain c borders := by
    obtain ⟨d, runs⟩ := frames.lined borders
    exact isPlain_of_runs runs
  runs c d borders along := (runs_get t d c).2 (frames.runs borders along)

end Frames

theorem Lined.spans (lined : t.Lined c) : t.outer.Spans c := by
  rcases lined_iff.1 lined with level | upright
  · exact ⟨level.2, level.1.spans⟩
  · exact ⟨upright.1.spans, upright.2⟩

theorem not_lined_of_holds (mem : e ∈ t.boxes) (holds : e.Holds c) : ¬ t.Lined c := by
  obtain ⟨i, column, j, row, rfl⟩ := mem_boxes.1 mem
  rw [lined_iff]
  rintro (⟨level, -⟩ | ⟨upright, -⟩)
  · exact level.not_between row holds.2
  · exact upright.not_between column holds.1

theorem exists_box (spans : t.outer.Spans c) (clear : ¬ t.Lined c) : ∃ e ∈ t.boxes, e.Holds c := by
  rw [lined_iff, not_or] at clear
  obtain ⟨across, down⟩ := spans_outer.1 spans
  obtain ⟨i, column, horizontal⟩ := across.exists_inside fun rules => clear.2 ⟨rules, down⟩
  obtain ⟨j, row, vertical⟩ := down.exists_inside fun rules => clear.1 ⟨rules, across⟩
  exact ⟨_, mem_boxes.2 ⟨i, column, j, row, rfl⟩, horizontal, vertical⟩

/-! ### The canvas -/

def fine (t : Table) : Table := ⟨t.columns.fine, t.rows.fine⟩

theorem outer_fine (t : Table) : t.fine.outer = t.outer.fine := by
  simp only [outer, fine, Extent.fine, Ink.place, Ink.scale, Ruling.count_fine, Nat.cast_ofNat,
    Int.add_zero, Ruling.line_fine (Nat.zero_le _), Ruling.line_fine (Nat.le_refl _)]

theorem boxes_fine (t : Table) : t.fine.boxes = t.boxes.map Extent.fine := by
  simp only [boxes, fine, Ruling.count_fine, List.map_map]
  refine List.map_congr_left fun place mem => ?_
  obtain ⟨column, row⟩ := List.mem_product.1 mem
  rw [List.mem_range] at column row
  simp only [Function.comp, box, Extent.fine, Ink.place, Ink.scale, Nat.cast_ofNat, Int.add_zero,
    Ruling.line_fine (Nat.le_of_lt column), Ruling.line_fine (Nat.le_of_lt row),
    Ruling.line_fine column, Ruling.line_fine row]

structure Shows (t : Table) (canvas : Grid) : Prop where
  inside : ∀ p, p ∈ canvas ↔ p ∈ t.grid
  marked : ∀ p, canvas.get p = Ink.mark ↔ t.Lined p
  clean : Outline.Clean canvas

/-- The lines of the canvas are those of the drawing, through the middles of squares and across the
borders that a line crosses. -/
theorem lined_fine {dx dy : Int} (xNear : -1 ≤ dx ∧ dx ≤ 1) (yNear : -1 ≤ dy ∧ dy ≤ 1) :
    t.fine.Lined (Ink.place c dx dy) ↔ (dx = 0 ∧ dy = 0) ∧ t.Lined c ∨
      ∃ d : Direction, (dx = d.dx ∧ dy = d.dy) ∧ t.Runs d c ∧ t.Runs d (c.step d) := by
  rw [lined_iff]
  simp only [fine, Ink.place, Ink.scale, Nat.cast_ofNat, Ruling.rules_fine xNear,
    Ruling.rules_fine yNear, Ruling.spans_fine xNear, Ruling.spans_fine yNear]
  constructor
  · rintro (⟨⟨rfl, rules⟩, here, there⟩ | ⟨⟨rfl, rules⟩, here, there⟩)
    · obtain rfl | rfl | rfl : dx = 0 ∨ dx = 1 ∨ dx = -1 := by omega
      · exact .inl ⟨⟨rfl, rfl⟩, .east, rules, here⟩
      · exact .inr ⟨.east, ⟨rfl, rfl⟩, ⟨rules, here⟩, by simpa [Direction.dy] using rules, there⟩
      · exact .inr ⟨.west, ⟨rfl, rfl⟩, ⟨rules, here⟩, by simpa [Direction.dy] using rules, there⟩
    · obtain rfl | rfl | rfl : dy = 0 ∨ dy = 1 ∨ dy = -1 := by omega
      · exact .inl ⟨⟨rfl, rfl⟩, .south, rules, here⟩
      · exact .inr ⟨.south, ⟨rfl, rfl⟩, ⟨rules, here⟩, by simpa [Direction.dx] using rules, there⟩
      · exact .inr ⟨.north, ⟨rfl, rfl⟩, ⟨rules, here⟩, by simpa [Direction.dx] using rules, there⟩
  · rintro (⟨⟨rfl, rfl⟩, lined⟩ | ⟨d, ⟨rfl, rfl⟩, here, there⟩)
    · simpa using lined_iff.1 lined
    · cases d with
      | north | south => exact .inr ⟨⟨rfl, here.1⟩, here.2, there.2⟩
      | east | west => exact .inl ⟨⟨rfl, here.1⟩, here.2, there.2⟩

theorem shows_render (members : ∀ c, c ∈ s ↔ t.Lined c) :
    t.fine.Shows (Ink.render t.grid s) where
  inside p := by
    rw [Ink.mem_render]
    simp only [Grid.mem_def, Grid.blank, grid, Grid.tabulate, fine, Ruling.size_fine, Ink.scale]
    omega
  marked p := by
    obtain ⟨dx, dy, xNear, yNear, square⟩ := Ink.exists_place p
    have drawn : Ink.Drawn t.grid s (p.shrink Ink.scale) ↔ t.Lined (p.shrink Ink.scale) :=
      ⟨fun drawn => (members _).1 drawn.1,
        fun lined => ⟨(members _).2 lined, (drawn_iff.2 lined).2⟩⟩
    rw [square, Ink.mark_place_iff t.plain.role?_ne_star xNear yNear, drawn, members,
      lined_fine xNear yNear]
    simp only [inksSide_iff]
    refine or_congr_right (and_iff_right_of_imp ?_)
    rintro ⟨d, -, runs, -⟩
    exact ⟨d, runs⟩
  clean := Outline.clean_render t.grid s

/-! ### Regions -/

namespace Shows

variable (shows : t.Shows canvas)
include shows

theorem blank (inside : p ∈ canvas) (clear : ¬ t.Lined p) : canvas.get p = Glyph.blank :=
  (shows.clean p inside).resolve_left (mt (shows.marked p).1 clear)

theorem not_lined (blank : canvas.get p = Glyph.blank) : ¬ t.Lined p := by
  rw [← shows.marked, blank]
  decide

theorem mem_of_spans (spans : t.outer.Spans p) : p ∈ canvas :=
  (shows.inside p).2 (mem_grid spans.1 spans.2)

theorem areas_box (mem : e ∈ t.boxes) (here : e.Holds p) :
    {q | canvas.areas.Reachable p q} = {q | e.Holds q} := by
  refine Set.ext fun q => Grid.areas_reachable_of_holds Glyph.blank (by decide) ?_ ?_ here
  · intro q holds
    have spans := (frames_of_mem mem).spans (Extent.spans_iff.2 (.inr holds))
    exact shows.blank (shows.mem_of_spans spans) (not_lined_of_holds mem holds)
  · intro q borders blank
    exact shows.not_lined blank ((frames_of_mem mem).lined borders)

theorem areas_adj (inside : p ∈ canvas ∧ ¬ t.outer.Spans p)
    (inside' : q ∈ canvas ∧ ¬ t.outer.Spans q) (near : q ∈ p.orthogonal) : canvas.areas.Adj p q := by
  have blank {c : Cell} (inside : c ∈ canvas ∧ ¬ t.outer.Spans c) : canvas.get c = Glyph.blank :=
    shows.blank inside.1 fun lined => inside.2 lined.spans
  exact Grid.areas_adj.2 ⟨⟨inside.1, inside'.1⟩, near, (blank inside).trans (blank inside').symm⟩

theorem reachable_corner (inside : p ∈ canvas) (out : ¬ t.outer.Spans p) :
    canvas.areas.Reachable ⟨0, 0⟩ p := by
  have bounds := Grid.mem_def.1 inside
  have left := t.columns.first_pos
  have top := t.rows.first_pos
  have row {y : Int} (within : 0 ≤ y ∧ y ≤ p.y) (clear : ¬ t.rows.Spans y) :
      canvas.areas.Reachable ⟨0, y⟩ ⟨p.x, y⟩ := by
    have mem (x : Int) (between : 0 ≤ x ∧ x ≤ p.x) : ⟨x, y⟩ ∈ canvas ∧ ¬ t.outer.Spans ⟨x, y⟩ := by
      refine ⟨Grid.mem_def.2 ?_, fun spans => clear spans.2⟩
      simp only
      omega
    refine Grid.reachable_row bounds.1.1 fun x past before => ?_
    refine shows.areas_adj (mem x (by omega)) (mem (x + 1) (by omega)) ?_
    exact Cell.mem_orthogonal.2 ⟨.east, (Grid.step_east x y).symm⟩
  have column {x : Int} (within : 0 ≤ x ∧ x ≤ p.x) (clear : ¬ t.columns.Spans x) :
      canvas.areas.Reachable ⟨x, 0⟩ ⟨x, p.y⟩ := by
    have mem (y : Int) (between : 0 ≤ y ∧ y ≤ p.y) : ⟨x, y⟩ ∈ canvas ∧ ¬ t.outer.Spans ⟨x, y⟩ := by
      refine ⟨Grid.mem_def.2 ?_, fun spans => clear spans.1⟩
      simp only
      omega
    refine Grid.reachable_column bounds.2.1 fun y past before => ?_
    refine shows.areas_adj (mem y (by omega)) (mem (y + 1) (by omega)) ?_
    exact Cell.mem_orthogonal.2 ⟨.south, (Grid.step_south x y).symm⟩
  have first : ¬ t.columns.Spans 0 ∧ ¬ t.rows.Spans 0 := by
    simp only [Ruling.Spans]
    omega
  -- Where the table stands in the column the way goes along the row last, else down the column.
  by_cases beside : t.columns.Spans p.x
  · have level : ¬ t.rows.Spans p.y := fun spans => out ⟨beside, spans⟩
    exact (column ⟨Int.le_refl _, bounds.1.1⟩ first.1).trans (row ⟨bounds.2.1, Int.le_refl _⟩ level)
  · exact (row ⟨Int.le_refl _, bounds.2.1⟩ first.2).trans
      (column ⟨bounds.1.1, Int.le_refl _⟩ beside)

theorem areas_around (inside : p ∈ canvas) (out : ¬ t.outer.Spans p) :
    {q | canvas.areas.Reachable p q} = {q | q ∈ canvas ∧ ¬ t.outer.Spans q} := by
  ext q
  constructor
  · intro reach
    refine Grid.mem_of_reachable (fun a b here adj => ?_) reach ⟨inside, out⟩
    obtain ⟨⟨-, there⟩, near, alike⟩ := Grid.areas_adj.1 adj
    have blank := shows.blank here.1 fun lined => here.2 lined.spans
    refine ⟨there, fun spans => ?_⟩
    -- Ink lies between the inside and the outside of the table.
    rcases Extent.spans_iff.1 spans with borders | holds
    · exact shows.not_lined (alike.symm.trans blank) (t.frames_outer.lined borders)
    · exact here.2 (holds.spans_of_near (Cell.mem_orthogonal_comm.1 near))
  · rintro ⟨inside', out'⟩
    exact (shows.reachable_corner inside out).symm.trans (shows.reachable_corner inside' out')

/-- The regions of a table are its boxes and what lies around it. -/
theorem isRegion_iff {region : Set Cell} : canvas.IsRegion region ↔
    (∃ e ∈ t.boxes, region = {q | e.Holds q}) ∨ region = {q | q ∈ canvas ∧ ¬ t.outer.Spans q} := by
  constructor
  · rintro ⟨p, blank, rfl⟩
    have inside : p ∈ canvas := Grid.mem_of_get_ne_outside (by rw [blank]; decide)
    by_cases spans : t.outer.Spans p
    · obtain ⟨e, mem, holds⟩ := exists_box spans (shows.not_lined blank)
      exact .inl ⟨e, mem, shows.areas_box mem holds⟩
    · exact .inr (shows.areas_around inside spans)
  · -- Each region is met at one of its cells.
    rintro (⟨e, mem, rfl⟩ | rfl)
    · have roomy := (frames_of_mem mem).roomy
      simp only [Extent.Roomy] at roomy
      have holds : e.Holds ⟨e.least.x + 1, e.least.y + 1⟩ := by
        simp only [Extent.Holds]
        omega
      have spans := (frames_of_mem mem).spans (Extent.spans_iff.2 (.inr holds))
      refine ⟨_, ?_, (shows.areas_box mem holds).symm⟩
      exact shows.blank (shows.mem_of_spans spans) (not_lined_of_holds mem holds)
    · have out : ¬ t.outer.Spans ⟨0, 0⟩ := fun spans =>
        absurd (Int.le_trans t.columns.first_pos spans.1.1) (by decide)
      have inside : (⟨0, 0⟩ : Cell) ∈ canvas := (shows.inside _).2 t.corner_mem
      refine ⟨_, shows.blank inside fun lined => out lined.spans, ?_⟩
      exact (shows.areas_around inside out).symm

end Shows

section Outlines

variable (members : ∀ c, c ∈ s ↔ t.Lined c)
include members

theorem edge_box (mem : e ∈ t.boxes) :
    Outline.edge (Ink.render t.grid s) {q | e.fine.Holds q} = e.border := by
  have shows := shows_render members
  have fine : e.fine ∈ t.fine.boxes := by
    rw [boxes_fine]
    exact List.mem_map_of_mem mem
  refine Outline.edge_holds (fun p borders => ?_) (frames_of_mem mem).roomy fun p holds inked => ?_
  · exact (shows.marked p).2 ((frames_of_mem fine).lined borders)
  · exact not_lined_of_holds fine holds ((shows.marked p).1 inked)

theorem edge_outer : Outline.edge (Ink.render t.grid s)
    {q | q ∈ Ink.render t.grid s ∧ ¬ t.fine.outer.Spans q} = t.outer.border := by
  have shows := shows_render members
  rw [outer_fine]
  refine Outline.edge_around (fun p borders => ?_) (fun p inked => ?_) fun p d spans => ?_
  · rw [← outer_fine] at borders
    exact (shows.marked p).2 (t.fine.frames_outer.lined borders)
  · rw [← outer_fine]
    exact ((shows.marked p).1 inked).spans
  · rw [← outer_fine] at spans
    exact (shows.inside _).2 (step_mem spans d)

theorem edges : {b | b.Nonempty ∧ ∃ region, (Ink.render t.grid s).IsRegion region ∧
    b = Outline.edge (Ink.render t.grid s) region} =
      {b | ∃ e, (e ∈ t.boxes ∨ e = t.outer) ∧ b = e.border} := by
  have shows := shows_render members
  ext b
  constructor
  · rintro ⟨-, region, found, rfl⟩
    rcases shows.isRegion_iff.1 found with ⟨e, mem, rfl⟩ | rfl
    · rw [boxes_fine] at mem
      obtain ⟨box, member, rfl⟩ := List.mem_map.1 mem
      exact ⟨box, .inl member, edge_box members member⟩
    · exact ⟨t.outer, .inr rfl, edge_outer members⟩
  · rintro ⟨e, kind, rfl⟩
    have frames := frames_of_kind kind
    refine ⟨⟨e.least, frames.roomy.borders_least⟩, ?_⟩
    rcases kind with mem | rfl
    · refine ⟨_, shows.isRegion_iff.2 (.inl ⟨e.fine, ?_, rfl⟩), (edge_box members mem).symm⟩
      rw [boxes_fine]
      exact List.mem_map_of_mem mem
    · exact ⟨_, shows.isRegion_iff.2 (.inr rfl), (edge_outer members).symm⟩

end Outlines

structure Outlined (t : Table) (sets : List CellSet) : Prop where
  some : ∀ s ∈ sets, ∃ e, (e ∈ t.boxes ∨ e = t.outer) ∧ s.members = e.border
  all : ∀ e, e ∈ t.boxes ∨ e = t.outer → ∃ s ∈ sets, s.members = e.border

theorem exists_outlines (t : Table) :
    ∃ outlines, Outline.all t.grid = .ok outlines ∧ t.Outlined outlines := by
  obtain ⟨s, taken, members⟩ := t.pieces
  obtain ⟨family, outlines⟩ := Outline.exists_outlines t.grid s
  have traced := outlines.regions.trans (edges members)
  have found : Outline.all t.grid = .ok family := by
    simp [Outline.all, taken, outlines.taken, bind, Except.bind, pure, Except.pure]
  refine ⟨family, found, fun o mem => ?_, fun e kind => ?_⟩
  · have edge : o.members ∈ {b | ∃ o ∈ family, b = o.members} := ⟨o, mem, rfl⟩
    rwa [traced] at edge
  · have edge : e.border ∈ {b | ∃ e, (e ∈ t.boxes ∨ e = t.outer) ∧ b = e.border} := ⟨e, kind, rfl⟩
    rw [← traced] at edge
    obtain ⟨o, mem, same⟩ := edge
    exact ⟨o, mem, same.symm⟩

/-! ### What is kept -/

theorem length_boxes (t : Table) : t.boxes.length = t.columns.count * t.rows.count := by
  rw [boxes, List.length_map, List.length_product, List.length_range, List.length_range]

theorem nodup_boxes (t : Table) : t.boxes.Nodup := by
  refine (List.nodup_range.product List.nodup_range).map_on fun p mem q mem' same => ?_
  obtain ⟨column, row⟩ := List.mem_product.1 mem
  obtain ⟨column', row'⟩ := List.mem_product.1 mem'
  rw [List.mem_range] at column row column' row'
  simp only [box, Extent.mk.injEq, Cell.mk.injEq] at same
  exact Prod.ext (Ruling.line_inj (Nat.le_of_lt column) (Nat.le_of_lt column') same.1.1)
    (Ruling.line_inj (Nat.le_of_lt row) (Nat.le_of_lt row') same.1.2)

theorem boxes_eq_outer (few : t.boxes.length ≤ 1) : t.boxes = [t.outer] := by
  have columns := t.columns.count_pos
  have rows := t.rows.count_pos
  rw [length_boxes] at few
  have column : t.columns.count = 1 :=
    Nat.le_antisymm (Nat.le_trans (Nat.le_mul_of_pos_right _ rows) few) columns
  have row : t.rows.count = 1 :=
    Nat.le_antisymm (Nat.le_trans (Nat.le_mul_of_pos_left _ columns) few) rows
  simp only [boxes, outer, column, row]
  rfl

/-- Each of many boxes leaves out a part of the table. -/
theorem exists_out (many : 1 < t.boxes.length) (mem : e ∈ t.boxes) :
    ∃ c, t.outer.Spans c ∧ ¬ e.Spans c := by
  by_contra none
  push Not at none
  obtain ⟨i, column, j, row, rfl⟩ := mem_boxes.1 mem
  have roomy := t.frames_outer.roomy
  have first := none _ roomy.borders_least.1
  have last := none _ roomy.borders_greatest.1
  rw [length_boxes, Ruling.count_eq_one column first.1.1 last.1.2,
    Ruling.count_eq_one row first.2.1 last.2.2] at many
  exact absurd many (by decide)

theorem outer_not_mem (many : 1 < t.boxes.length) : t.outer ∉ t.boxes := by
  intro mem
  obtain ⟨c, inside, out⟩ := exists_out many mem
  exact out inside

theorem border_ne_outer (many : 1 < t.boxes.length) (mem : e ∈ t.boxes) :
    e.border ≠ t.outer.border := fun same => by
  rw [Extent.border_inj (frames_of_mem mem).roomy t.frames_outer.roomy same] at mem
  exact outer_not_mem many mem

theorem exists_box_of_spans (spans : t.outer.Spans c) : ∃ e ∈ t.boxes, e.Spans c := by
  obtain ⟨across, down⟩ := spans_outer.1 spans
  obtain ⟨i, column, horizontal⟩ := across.exists_field
  obtain ⟨j, row, vertical⟩ := down.exists_field
  exact ⟨_, mem_boxes.2 ⟨i, column, j, row, rfl⟩, horizontal, vertical⟩

theorem Frames.form (frames : t.Frames e) (border : s.members = e.border) :
    Outline.form t.grid s = .loop :=
  have border : ∀ c, c ∈ s ↔ e.Borders c := Set.ext_iff.1 border
  Layout.form_of_ring (frames.fence.draws border) (frames.fence.ring border)

theorem Frames.filled? (frames : t.Frames e) (border : s.members = e.border) :
    (Outline.filled? s).isSome ∧ ∀ c, c ∈ Reduction.area s ↔ e.Spans c := by
  obtain ⟨filled, found, mem⟩ := Outline.filled?_of_borders frames.roomy (Set.ext_iff.1 border)
  rw [Reduction.area, found]
  exact ⟨rfl, mem⟩

theorem exists_perm_border {sets : List CellSet} (es : List Extent) (nodup : es.Nodup)
    (roomy : ∀ e ∈ es, e.Roomy) (apart : sets.Pairwise fun s t => ¬ s.Same t)
    (some : ∀ s ∈ sets, ∃ e ∈ es, s.members = e.border)
    (all : ∀ e ∈ es, ∃ s ∈ sets, s.members = e.border) :
    ∃ fs, fs.Perm es ∧ List.Forall₂ (fun e s => s.members = e.border) fs sets := by
  refine exists_perm_forall₂ nodup (apart.imp fun away e here there => ?_) ?_ some all
  · exact away (CellSet.same_iff.2 (here.trans there.symm))
  · intro e mem f mem' s here there
    exact Extent.border_inj (roomy e mem) (roomy f mem') (here.symm.trans there)

namespace Outlined

variable {sets : List CellSet} {whole : CellSet}

theorem distinct (outlined : t.Outlined sets) : t.Outlined (CellSet.distinct sets) where
  some s mem := outlined.some s ((CellSet.distinct_sublist sets).subset mem)
  all e kind := by
    obtain ⟨s, mem, border⟩ := outlined.all e kind
    obtain ⟨kept, member, same⟩ := CellSet.exists_same_distinct mem
    exact ⟨kept, member, (CellSet.same_iff.1 same).trans border⟩

theorem exists_frames (outlined : t.Outlined sets) (mem : s ∈ sets) :
    ∃ e, t.Frames e ∧ s.members = e.border := by
  obtain ⟨e, kind, border⟩ := outlined.some s mem
  exact ⟨e, frames_of_kind kind, border⟩

theorem form (outlined : t.Outlined sets) (mem : s ∈ sets) : Outline.form t.grid s = .loop := by
  obtain ⟨e, frames, border⟩ := outlined.exists_frames mem
  exact frames.form border

theorem told (outlined : t.Outlined sets) (mem : s ∈ sets) : (Outline.filled? s).isSome := by
  obtain ⟨e, frames, border⟩ := outlined.exists_frames mem
  exact (frames.filled? border).1

section Apart

variable (outlined : t.Outlined sets) (apart : sets.Pairwise fun s t => ¬ s.Same t)
include outlined apart

theorem exists_box_of_ne (mem : whole ∈ sets) (border : whole.members = t.outer.border)
    (member : s ∈ sets) (other : s ≠ whole) : ∃ e ∈ t.boxes, s.members = e.border := by
  obtain ⟨e, box | rfl, edge⟩ := outlined.some s member
  · exact ⟨e, box, edge⟩
  · have symm : Std.Symm fun s t : CellSet => ¬ s.Same t := ⟨fun _ _ => mt CellSet.Same.symm⟩
    exact absurd (CellSet.same_iff.2 (edge.trans border.symm)) (apart.forall member mem other)

/-- The boxes fill the table. -/
theorem tiles (many : 1 < t.boxes.length) (mem : whole ∈ sets)
    (border : whole.members = t.outer.border) : Reduction.Tiles sets whole := by
  obtain ⟨-, outer⟩ := t.frames_outer.filled? border
  refine ⟨fun s => outlined.told, apart, mem, fun s member => ?_, fun s member c inside => ?_,
    fun s member other => ?_, fun c inside => ?_⟩
  · obtain ⟨e, frames, edge⟩ := outlined.exists_frames member
    exact ⟨_, ((frames.filled? edge).2 _).2 frames.roomy.borders_least.1⟩
  · obtain ⟨e, frames, edge⟩ := outlined.exists_frames member
    exact (outer c).2 (frames.spans (((frames.filled? edge).2 c).1 inside))
  · obtain ⟨e, box, edge⟩ := outlined.exists_box_of_ne apart mem border member other
    obtain ⟨c, inside, out⟩ := exists_out many box
    exact ⟨c, (outer c).2 inside, mt (((frames_of_mem box).filled? edge).2 c).1 out⟩
  · obtain ⟨e, box, spans⟩ := exists_box_of_spans ((outer c).1 inside)
    obtain ⟨s, member, edge⟩ := outlined.all e (.inl box)
    refine ⟨s, member, ?_, (((frames_of_mem box).filled? edge).2 c).2 spans⟩
    rintro rfl
    exact border_ne_outer many box (edge.symm.trans border)

theorem length_eq (many : 1 < t.boxes.length) : sets.length = t.boxes.length + 1 := by
  obtain ⟨es, perm, related⟩ := exists_perm_border (t.outer :: t.boxes)
    (List.nodup_cons.2 ⟨outer_not_mem many, t.nodup_boxes⟩)
    (fun e mem => (frames_of_kind (List.mem_cons.1 mem).symm).roomy) apart
    (fun s mem => by
      obtain ⟨e, kind, edge⟩ := outlined.some s mem
      exact ⟨e, List.mem_cons.2 kind.symm, edge⟩)
    fun e mem => outlined.all e (List.mem_cons.1 mem).symm
  rw [← related.length_eq, perm.length_eq, List.length_cons]

/-- Of many boxes, all are kept and the border of the table is dropped. -/
theorem dropObsolete_of_many (many : 1 < t.boxes.length) : ∃ boxes, boxes.Perm t.boxes ∧
    List.Forall₂ (fun box s => s.members = box.border) boxes (Reduction.dropObsolete sets) := by
  obtain ⟨whole, mem, border⟩ := outlined.all _ (.inr rfl)
  have kept {s : CellSet} := (outlined.tiles apart many mem border).mem_dropObsolete_iff (s := s)
    (by rw [outlined.length_eq apart many]; omega)
  refine exists_perm_border t.boxes t.nodup_boxes (fun e mem => (frames_of_mem mem).roomy)
    (apart.sublist (Reduction.dropObsolete_sublist sets)) (fun s here => ?_) fun e box => ?_
  · obtain ⟨member, other⟩ := kept.1 here
    exact outlined.exists_box_of_ne apart mem border member other
  · obtain ⟨s, member, edge⟩ := outlined.all e (.inl box)
    refine ⟨s, kept.2 ⟨member, ?_⟩, edge⟩
    rintro rfl
    exact border_ne_outer many box (edge.symm.trans border)

theorem dropObsolete_of_single (few : t.boxes.length ≤ 1) : ∃ boxes, boxes.Perm t.boxes ∧
    List.Forall₂ (fun box s => s.members = box.border) boxes (Reduction.dropObsolete sets) := by
  have single := boxes_eq_outer few
  obtain ⟨es, perm, related⟩ := exists_perm_border t.boxes t.nodup_boxes
    (fun e mem => (frames_of_mem mem).roomy) apart
    (fun s mem => by
      obtain ⟨e, kind, edge⟩ := outlined.some s mem
      exact ⟨e, by simpa [single] using kind, edge⟩)
    fun e mem => outlined.all e (.inl mem)
  have one : sets.length ≤ 2 := by
    rw [← related.length_eq, perm.length_eq]
    omega
  rw [Reduction.dropObsolete_of_few (fun s => outlined.told) one]
  exact ⟨es, perm, related⟩

end Apart

end Outlined

/-- Of the outlines of a table, a reduction keeps just those of its boxes, each once, and no strand.
The outline of the table itself is found with the others, and is dropped unless there is just one
box. -/
theorem ofOutlines_boxes (t : Table) : ∃ outlines, Outline.all t.grid = .ok outlines ∧
    (∃ o ∈ outlines, o.members = t.outer.border) ∧
    (Reduction.ofOutlines t.grid outlines).strands = [] ∧
    (∃ boxes, boxes.Perm t.boxes ∧ List.Forall₂ (fun box s => s.members = box.border) boxes
      (Reduction.ofOutlines t.grid outlines).loops) ∧
    (1 < t.boxes.length → ∀ s ∈ (Reduction.ofOutlines t.grid outlines).loops,
      s.members ≠ t.outer.border) := by
  obtain ⟨outlines, found, outlined⟩ := t.exists_outlines
  have distinct := CellSet.pairwise_distinct outlines
  have kept : ∃ boxes, boxes.Perm t.boxes ∧ List.Forall₂ (fun box s => s.members = box.border) boxes
      (Reduction.dropObsolete (CellSet.distinct outlines)) := by
    rcases Nat.lt_or_ge 1 t.boxes.length with many | few
    · exact outlined.distinct.dropObsolete_of_many distinct many
    · exact outlined.distinct.dropObsolete_of_single distinct few
  refine ⟨outlines, found, outlined.all _ (.inr rfl), ?_⟩
  rw [Reduction.ofOutlines_of_loops fun s mem => outlined.form mem]
  refine ⟨rfl, kept, fun many s mem border => ?_⟩
  obtain ⟨boxes, perm, related⟩ := kept
  obtain ⟨box, place, edge⟩ := forall₂_mem related mem
  exact border_ne_outer many (perm.mem_iff.1 place) (edge.symm.trans border)

end Table

end Linework
