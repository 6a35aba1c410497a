import Linework.Proofs.Loop

/-! Rectangles of cells: their borders, and what lies inside.

The inside of a rectangle hangs together, and its border is a ring if its sides run along it.
-/

set_option autoImplicit false

namespace Linework

namespace CellSet

variable {s : CellSet} {c n : Cell} {e : Extent}

def Extent.Borders (e : Extent) (c : Cell) : Prop :=
  e.Spans c ∧
    (c.x = e.least.x ∨ c.x = e.greatest.x ∨ c.y = e.least.y ∨ c.y = e.greatest.y)

def Extent.Holds (e : Extent) (c : Cell) : Prop :=
  (e.least.x < c.x ∧ c.x < e.greatest.x) ∧ e.least.y < c.y ∧ c.y < e.greatest.y

def Extent.Roomy (e : Extent) : Prop :=
  e.least.x + 2 ≤ e.greatest.x ∧ e.least.y + 2 ≤ e.greatest.y

theorem Extent.spans_iff : e.Spans c ↔ e.Borders c ∨ e.Holds c := by
  simp only [Borders, Holds, Spans]
  omega

theorem Extent.Holds.not_borders (holds : e.Holds c) : ¬ e.Borders c := by
  simp only [Borders, Holds, Spans] at *
  omega

theorem Extent.Roomy.borders_least (roomy : e.Roomy) : e.Borders e.least := by
  refine ⟨?_, .inl rfl⟩
  simp only [Roomy, Spans] at *
  omega

theorem Extent.Roomy.borders_greatest (roomy : e.Roomy) : e.Borders e.greatest := by
  refine ⟨?_, .inr (.inl rfl)⟩
  simp only [Roomy, Spans] at *
  omega

theorem Extent.Holds.spans_of_near (holds : e.Holds c) (near : n ∈ c.orthogonal) : e.Spans n := by
  obtain ⟨d, rfl⟩ := Cell.mem_orthogonal.1 near
  simp only [Holds, Spans, Cell.step_x, Cell.step_y] at *
  cases d <;> simp only [Direction.dx, Direction.dy] <;> omega

/-- A rectangle each side of which is met by some of the given cells. -/
structure Extent.Tight (e : Extent) (p : Cell → Prop) : Prop where
  west : ∃ c, p c ∧ c.x = e.least.x
  east : ∃ c, p c ∧ c.x = e.greatest.x
  north : ∃ c, p c ∧ c.y = e.least.y
  south : ∃ c, p c ∧ c.y = e.greatest.y

theorem Extent.Tight.stretch {p : Cell → Prop} (tight : e.Tight p) (mem : p c) :
    (e.stretch c).Tight p := by
  obtain ⟨⟨west, inWest, atWest⟩, ⟨east, inEast, atEast⟩, ⟨north, inNorth, atNorth⟩,
    ⟨south, inSouth, atSouth⟩⟩ := tight
  refine ⟨?_, ?_, ?_, ?_⟩ <;> simp only [Extent.stretch]
  · rcases Int.le_total e.least.x c.x with le | le
    · exact ⟨west, inWest, by omega⟩
    · exact ⟨c, mem, by omega⟩
  · rcases Int.le_total e.greatest.x c.x with le | le
    · exact ⟨c, mem, by omega⟩
    · exact ⟨east, inEast, by omega⟩
  · rcases Int.le_total e.least.y c.y with le | le
    · exact ⟨north, inNorth, by omega⟩
    · exact ⟨c, mem, by omega⟩
  · rcases Int.le_total e.greatest.y c.y with le | le
    · exact ⟨c, mem, by omega⟩
    · exact ⟨south, inSouth, by omega⟩

theorem Extent.tight_foldl {cells : List Cell} {p : Cell → Prop} (tight : e.Tight p)
    (mem : ∀ c ∈ cells, p c) : (cells.foldl Extent.stretch e).Tight p := by
  induction cells generalizing e with
  | nil => exact tight
  | cons c rest ih =>
    obtain ⟨first, others⟩ := List.forall_mem_cons.1 mem
    exact ih (tight.stretch first) others

theorem tight_of_extent? (found : s.extent? = some e) : e.Tight (· ∈ s) := by
  obtain ⟨first, rest, cells, rfl⟩ := exists_of_extent? found
  have mem : ∀ c ∈ first :: rest, c ∈ s := fun c member => by rwa [mem_def, cells]
  obtain ⟨start, others⟩ := List.forall_mem_cons.1 mem
  exact Extent.tight_foldl ⟨⟨first, start, rfl⟩, ⟨first, start, rfl⟩, ⟨first, start, rfl⟩,
    ⟨first, start, rfl⟩⟩ others

theorem Extent.Tight.unique {f : Extent} {p : Cell → Prop} (tight : e.Tight p)
    (tight' : f.Tight p) (spans : ∀ c, p c → e.Spans c) (spans' : ∀ c, p c → f.Spans c) :
    e = f := by
  have least {e f : Extent} (tight : e.Tight p) (spans' : ∀ c, p c → f.Spans c) :
      (f.least.x ≤ e.least.x ∧ e.greatest.x ≤ f.greatest.x) ∧
        f.least.y ≤ e.least.y ∧ e.greatest.y ≤ f.greatest.y := by
    obtain ⟨⟨west, inWest, atWest⟩, ⟨east, inEast, atEast⟩, ⟨north, inNorth, atNorth⟩,
      ⟨south, inSouth, atSouth⟩⟩ := tight
    exact ⟨⟨atWest ▸ (spans' west inWest).1.1, atEast ▸ (spans' east inEast).1.2⟩,
      atNorth ▸ (spans' north inNorth).2.1, atSouth ▸ (spans' south inSouth).2.2⟩
  have within := least tight spans'
  have without := least tight' spans
  obtain ⟨⟨lx, ly⟩, ⟨gx, gy⟩⟩ := e
  obtain ⟨⟨lx', ly'⟩, ⟨gx', gy'⟩⟩ := f
  simp only [Extent.mk.injEq, Cell.mk.injEq] at within without ⊢
  omega

theorem Extent.Roomy.tight (roomy : e.Roomy) : e.Tight e.Borders :=
  ⟨⟨_, roomy.borders_least, rfl⟩, ⟨_, roomy.borders_greatest, rfl⟩, ⟨_, roomy.borders_least, rfl⟩,
    ⟨_, roomy.borders_greatest, rfl⟩⟩

theorem extent?_of_borders (roomy : e.Roomy) (border : ∀ c, c ∈ s ↔ e.Borders c) :
    s.extent? = some e := by
  obtain ⟨f, found⟩ := extent?_isSome ((border _).2 roomy.borders_least)
  have tight : e.Tight (· ∈ s) := by
    simp only [border]
    exact roomy.tight
  rw [found, (tight_of_extent? found).unique tight (fun c => spans_of_extent? found)
    fun c mem => ((border c).1 mem).1]

end CellSet

namespace Grid

open CellSet (Extent)

variable {g : Grid} {e : Extent} {c p q : Cell} {web : SimpleGraph Cell}

theorem step_east (x y : Int) : Cell.step ⟨x, y⟩ .east = ⟨x + 1, y⟩ := by
  ext <;> simp [Direction.dx, Direction.dy]

theorem step_south (x y : Int) : Cell.step ⟨x, y⟩ .south = ⟨x, y + 1⟩ := by
  ext <;> simp [Direction.dx, Direction.dy]

theorem reachable_along (place : Int → Cell) {a b : Int} (le : a ≤ b)
    (adj : ∀ t, a ≤ t → t < b → web.Adj (place t) (place (t + 1))) :
    web.Reachable (place a) (place b) := by
  induction b, le using Int.leInduction with
  | base => rfl
  | succ t le ih =>
    have before := ih fun u least most => adj u least (by omega)
    exact before.trans (adj t le (by omega)).reachable

theorem reachable_row {x x' y : Int} (le : x ≤ x')
    (adj : ∀ t, x ≤ t → t < x' → web.Adj ⟨t, y⟩ ⟨t + 1, y⟩) : web.Reachable ⟨x, y⟩ ⟨x', y⟩ :=
  reachable_along (⟨·, y⟩) le adj

theorem reachable_column {x y y' : Int} (le : y ≤ y')
    (adj : ∀ t, y ≤ t → t < y' → web.Adj ⟨x, t⟩ ⟨x, t + 1⟩) : web.Reachable ⟨x, y⟩ ⟨x, y'⟩ :=
  reachable_along (⟨x, ·⟩) le adj

/-- Cells of a rectangle are connected if all neighbors in it are. -/
theorem reachable_of_holds (east : ∀ x y, e.Holds ⟨x, y⟩ → e.Holds ⟨x + 1, y⟩ →
      web.Adj ⟨x, y⟩ ⟨x + 1, y⟩)
    (south : ∀ x y, e.Holds ⟨x, y⟩ → e.Holds ⟨x, y + 1⟩ → web.Adj ⟨x, y⟩ ⟨x, y + 1⟩)
    (here : e.Holds p) (there : e.Holds q) : web.Reachable p q := by
  have row {x x' y : Int} (le : x ≤ x') (here : e.Holds ⟨x, y⟩) (there : e.Holds ⟨x', y⟩) :
      web.Reachable ⟨x, y⟩ ⟨x', y⟩ :=
    reachable_row le fun t least most => east t y
      (by simp only [Extent.Holds] at *; omega) (by simp only [Extent.Holds] at *; omega)
  have column {x y y' : Int} (le : y ≤ y') (here : e.Holds ⟨x, y⟩) (there : e.Holds ⟨x, y'⟩) :
      web.Reachable ⟨x, y⟩ ⟨x, y'⟩ :=
    reachable_column le fun t least most => south x t
      (by simp only [Extent.Holds] at *; omega) (by simp only [Extent.Holds] at *; omega)
  have turn : e.Holds ⟨q.x, p.y⟩ := by
    simp only [Extent.Holds] at *
    omega
  have along : web.Reachable p ⟨q.x, p.y⟩ := by
    rcases Int.le_total p.x q.x with le | le
    · exact row le here turn
    · exact (row le turn here).symm
  refine along.trans ?_
  rcases Int.le_total p.y q.y with le | le
  · exact column le turn there
  · exact (column le there turn).symm

/-- Where the inside of a rectangle holds one character and its border does not, the inside is an
area. -/
theorem areas_reachable_of_holds (char : Char) (visible : char ≠ Glyph.outside)
    (filled : ∀ q, e.Holds q → g.get q = char) (fence : ∀ q, e.Borders q → g.get q ≠ char)
    (here : e.Holds p) : g.areas.Reachable p q ↔ e.Holds q := by
  have mem {q : Cell} (holds : e.Holds q) : q ∈ g :=
    mem_of_get_ne_outside (by rwa [filled q holds])
  constructor
  · intro reach
    refine mem_of_reachable (fun a b holds adj => ?_) reach here
    obtain ⟨-, near, alike⟩ := areas_adj.1 adj
    refine (Extent.spans_iff.1 (holds.spans_of_near near)).resolve_left fun borders => ?_
    exact fence b borders (alike.symm.trans (filled a holds))
  · refine reachable_of_holds (fun x y here there => ?_) (fun x y here there => ?_) here
    · refine ⟨⟨mem here, mem there⟩, ?_, (filled _ here).trans (filled _ there).symm⟩
      exact Cell.mem_orthogonal.2 ⟨.east, (step_east x y).symm⟩
    · refine ⟨⟨mem here, mem there⟩, ?_, (filled _ here).trans (filled _ there).symm⟩
      exact Cell.mem_orthogonal.2 ⟨.south, (step_south x y).symm⟩

/-! ### The border as a ring -/

variable {s : CellSet} {d : Direction}

def Along (e : Extent) (c : Cell) (d : Direction) : Prop :=
  e.Spans (c.step d) ∧ if d.isHorizontal then c.y = e.least.y ∨ c.y = e.greatest.y
    else c.x = e.least.x ∨ c.x = e.greatest.x

instance (e : Extent) (c : Cell) : DecidablePred (Along e c) := fun d => by
  unfold Along Extent.Spans
  infer_instance

theorem length_along (roomy : e.Roomy) (borders : e.Borders c) :
    (Direction.all.filter fun d => decide (Along e c d)).length = 2 := by
  simp only [Extent.Roomy] at roomy
  simp only [Extent.Borders, Extent.Spans] at borders
  rw [← List.countP_eq_length_filter, Direction.all]
  simp only [List.countP_cons, List.countP_nil, decide_eq_true_eq, Along, Extent.Spans,
    Direction.isHorizontal, Bool.false_eq_true, reduceIte, Cell.step_x, Cell.step_y, Direction.dx,
    Direction.dy]
  split_ifs <;> omega

structure Fence (g : Grid) (e : Extent) : Prop where
  roomy : e.Roomy
  inside : ∀ c, e.Borders c → c ∈ g
  plain : ∀ c, e.Borders c → Glyph.isPlain (g.get c)
  runs : ∀ c d, e.Borders c → Along e c d → Glyph.runs d (g.get c)

namespace Fence

variable (fence : g.Fence e) (border : ∀ c, c ∈ s ↔ e.Borders c)
include fence border

theorem draws : g.Draws s :=
  ⟨fun c mem => fence.inside c ((border c).1 mem), fun c mem => fence.plain c ((border c).1 mem)⟩

theorem runs_step (borders : e.Borders c) :
    Glyph.runs d ((g.isolate s).get (c.step d)) ↔ Along e c d := by
  -- With room inside, two neighboring cells of the border lie on one side of it.
  have roomy := fence.roomy
  constructor
  · intro runs
    have there : e.Borders (c.step d) := by
      rw [← border]
      by_contra out
      rw [not_runs_of_empty (empty_isolate_of_not_mem out)] at runs
      cases runs
    refine ⟨there.1, ?_⟩
    simp only [Extent.Roomy] at roomy
    simp only [Extent.Borders, Extent.Spans, Cell.step_x, Cell.step_y] at borders there
    cases d <;> simp only [Direction.dx, Direction.dy, Direction.isHorizontal, Bool.false_eq_true,
      reduceIte] at there ⊢ <;> omega
  · intro along
    have there : e.Borders (c.step d) := by
      refine ⟨along.1, ?_⟩
      obtain ⟨-, side⟩ := along
      cases d <;> simp only [Direction.isHorizontal, Bool.false_eq_true, reduceIte, Cell.step_x,
        Cell.step_y, Direction.dx, Direction.dy] at side ⊢ <;> omega
    have back : Along e (c.step d) d.opposite := by
      refine ⟨by rw [Cell.step_step_opposite]; exact borders.1, ?_⟩
      obtain ⟨-, side⟩ := along
      cases d <;> simp only [Direction.isHorizontal, Direction.opposite, Bool.false_eq_true,
        reduceIte, Cell.step_x, Cell.step_y, Direction.dx, Direction.dy] at side ⊢ <;> omega
    rw [(fence.draws border).get_isolate ((border _).2 there), ← Glyph.runs_opposite]
    exact fence.runs _ _ there back

theorem plain_isolate : (g.isolate s).Plain where
  empty_or_plain c := by
    by_cases mem : c ∈ s
    · exact .inr ((fence.draws border).isPlain_isolate mem)
    · exact .inl (empty_isolate_of_not_mem mem)
  plus_joins c plus := by
    have borders : e.Borders c := by
      rw [← border]
      by_contra out
      rcases empty_isolate_of_not_mem (g := g) out with same | same <;>
        exact absurd (plus.symm.trans same) (by decide)
    -- Two of the four arms are there, which is all that a plus asks for.
    have two := length_along fence.roomy borders
    have arm (d : Direction) : ((g.isolate s).window c).hasArm d = decide (Along e c d) := by
      rw [hasArm_window, Bool.eq_iff_iff, fence.runs_step border borders, decide_eq_true_eq]
    rw [Window.crossroads?, arm, arm, arm, arm, ← Option.isSome_iff_exists]
    revert two
    rw [← List.countP_eq_length_filter, Direction.all]
    simp only [List.countP_cons, List.countP_nil]
    generalize decide (Along e c .north) = north
    generalize decide (Along e c .east) = east
    generalize decide (Along e c .south) = south
    generalize decide (Along e c .west) = west
    revert north east south west
    decide

theorem mem_joints_iff (borders : e.Borders c) :
    d ∈ (g.isolate s).joints c ↔ Along e c d := by
  rw [(fence.plain_isolate border).mem_joints_iff, fence.runs_step border borders]
  refine ⟨fun both => both.2, fun along => ⟨?_, along⟩⟩
  rw [(fence.draws border).get_isolate ((border c).2 borders)]
  exact fence.runs c d borders along

theorem adj_east {x y : Int} (here : e.Borders ⟨x, y⟩) (along : Along e ⟨x, y⟩ .east) :
    (g.isolate s).web.Adj ⟨x, y⟩ ⟨x + 1, y⟩ := by
  rw [← step_east, adj_step]
  exact (fence.mem_joints_iff border here).2 along

theorem adj_south {x y : Int} (here : e.Borders ⟨x, y⟩) (along : Along e ⟨x, y⟩ .south) :
    (g.isolate s).web.Adj ⟨x, y⟩ ⟨x, y + 1⟩ := by
  rw [← step_south, adj_step]
  exact (fence.mem_joints_iff border here).2 along

/-- The border of a rectangle is a ring. -/
theorem ring : (g.isolate s).Ring s := by
  have roomy := fence.roomy
  simp only [Extent.Roomy] at roomy
  have joints (c : Cell) (borders : e.Borders c) : (g.isolate s).joints c
      = Direction.all.filter fun d => decide (Along e c d) := by
    refine List.filter_congr fun d _ => ?_
    rw [Bool.eq_iff_iff, Bool.and_eq_true, ← mem_joints, fence.mem_joints_iff border borders,
      decide_eq_true_eq]
  have row {x x' y : Int} (le : x ≤ x') (side : y = e.least.y ∨ y = e.greatest.y)
      (least : e.least.x ≤ x) (most : x' ≤ e.greatest.x) :
      (g.isolate s).web.Reachable ⟨x, y⟩ ⟨x', y⟩ := by
    refine reachable_row le fun t past before => fence.adj_east border ?_ ?_
    · simp only [Extent.Borders, Extent.Spans]
      omega
    · simp only [Along, Extent.Spans, Direction.isHorizontal, reduceIte, Cell.step_x, Cell.step_y,
        Direction.dx, Direction.dy]
      omega
  have column {x y y' : Int} (le : y ≤ y') (side : x = e.least.x ∨ x = e.greatest.x)
      (least : e.least.y ≤ y) (most : y' ≤ e.greatest.y) :
      (g.isolate s).web.Reachable ⟨x, y⟩ ⟨x, y'⟩ := by
    refine reachable_column le fun t past before => fence.adj_south border ?_ ?_
    · simp only [Extent.Borders, Extent.Spans]
      omega
    · simp only [Along, Extent.Spans, Direction.isHorizontal, Bool.false_eq_true, reduceIte,
        Cell.step_x, Cell.step_y, Direction.dx, Direction.dy]
      omega
  -- Every cell of the border is reached from the first corner.
  have reach (c : Cell) (borders : e.Borders c) : (g.isolate s).web.Reachable e.least c := by
    obtain ⟨x, y⟩ := c
    obtain ⟨⟨⟨west, east⟩, north, south⟩, left | right | top | bottom⟩ := borders
    · obtain rfl : x = e.least.x := left
      exact column north (.inl rfl) (Int.le_refl _) south
    · obtain rfl : x = e.greatest.x := right
      exact (row west (.inl rfl) (Int.le_refl _) (Int.le_refl _)).trans
        (column north (.inr rfl) (Int.le_refl _) south)
    · obtain rfl : y = e.least.y := top
      exact row west (.inl rfl) (Int.le_refl _) east
    · obtain rfl : y = e.greatest.y := bottom
      exact (column north (.inl rfl) (Int.le_refl _) (Int.le_refl _)).trans
        (row west (.inr rfl) (Int.le_refl _) east)
  refine ⟨⟨e.least, (border _).2 fence.roomy.borders_least⟩, fun a memA b memB => ?_,
    fun c mem => ?_⟩
  · exact (reach a ((border a).1 memA)).symm.trans (reach b ((border b).1 memB))
  · rw [joints c ((border c).1 mem), length_along roomy ((border c).1 mem)]

end Fence

end Grid

end Linework
