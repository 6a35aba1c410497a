import Linework.Proofs.Enclosure
import Linework.Proofs.Margin
import Linework.Proofs.Ring
import Linework.Trace

/-! Rings are recognized as loops and drawn as polygons.

A ring encloses an area and a walk around it comes back, so its form is that of a loop. Its corners
are the cells at which it bends, in the order of the walk.
-/

set_option autoImplicit false

namespace Linework

namespace Grid

variable {g : Grid} {s : CellSet} {c : Cell}

namespace Ring

theorem joints_ne_nil (ring : g.Ring s) (mem : c ∈ s) : g.joints c ≠ [] := fun bare => by
  have two := ring.joined c mem
  simp [bare] at two

theorem two_le_size (ring : (g.isolate s).Ring s) : 2 ≤ s.size := by
  obtain ⟨c, mem⟩ := ring.nonempty
  obtain ⟨d, joint⟩ := List.exists_mem_of_ne_nil _ (ring.joints_ne_nil mem)
  have adj : (g.isolate s).web.Adj c (c.step d) := adj_step.2 joint
  have pair : [c, c.step d].Nodup := by simpa using adj.ne
  refine (List.subperm_of_subset pair fun n member => ?_).length_le
  simp only [List.mem_cons, List.not_mem_nil, or_false] at member
  rcases member with rfl | rfl
  · exact mem
  · exact (mem_of_adj_isolate adj).2

theorem encloses (ring : (g.isolate s).Ring s) (drawn : g.Draws s) :
    Outline.encloses g s = .ok true := by
  have plain := drawn.plain_isolate fun c mem => ring.joints_ne_nil mem
  obtain ⟨c, mem⟩ := ring.nonempty
  obtain ⟨d, joint⟩ := List.exists_mem_of_ne_nil _ (ring.joints_ne_nil mem)
  obtain ⟨alone, dx, dy, localized, moves, -⟩ := Outline.localize?_moves drawn.inside mem
  have inked : alone.Inked (s.translate dx dy) := by
    refine ⟨fun n e joint => ?_, fun n => ?_⟩
    · obtain ⟨c, rfl⟩ := n.exists_translate dx dy
      rw [moves.joints] at joint
      exact CellSet.mem_translate.2 (mem_of_mem_joints_isolate joint)
    · obtain ⟨c, rfl⟩ := n.exists_translate dx dy
      rw [moves.role?]
      exact plain.role?_ne_star c
  -- The fill finds a blank left over wherever no line ends, since ink then has two sides.
  have lined : alone.Even alone.web := by
    refine ⟨le_refl _, fun n => ?_⟩
    obtain ⟨c, rfl⟩ := n.exists_translate dx dy
    rw [leaving_web, moves.joints]
    by_cases mem : c ∈ s
    · rw [ring.joined c mem]
    · rw [List.eq_nil_iff_forall_not_mem.2 fun d joint => mem (mem_of_mem_joints_isolate joint)]
      rfl
  rw [← moves.joints c, ← leaving_web] at joint
  exact Outline.encloses_of_fill localized (inked.fill_leaves_blank lined joint)

theorem start?_eq (ring : (g.isolate s).Ring s) (drawn : g.Draws s) :
    Outline.start? (g.isolate s) s = s.first? := by
  have plain := drawn.plain_isolate fun c mem => ring.joints_ne_nil mem
  have endless : s.toList.find? (g.isolate s).isLineEnd = none := by
    rw [List.find?_eq_none]
    intro c mem finish
    -- A line end is joined to a single cell.
    have one := (plain.isLineEnd_iff (drawn.isPlain_isolate mem)).1 finish
    rw [ring.joined c mem] at one
    cases one
  rw [Outline.start?, endless, Option.none_or]

theorem exists_first (ring : g.Ring s) : ∃ start ∈ s, s.first? = some start := by
  obtain ⟨c, mem⟩ := ring.nonempty
  rw [CellSet.mem_def] at mem
  cases cells : s.toList with
  | nil => rw [cells] at mem; cases mem
  | cons start rest =>
    exact ⟨start, by simp [CellSet.mem_def, cells], by simp [CellSet.first?, cells]⟩

theorem isVertex_eq (ring : (g.isolate s).Ring s) (drawn : g.Draws s) (mem : c ∈ s) :
    (g.isolate s).isVertex c = (g.isolate s).bends c := by
  have plain := drawn.plain_isolate fun c mem => ring.joints_ne_nil mem
  rw [Bool.eq_iff_iff, plain.isVertex_iff (drawn.isPlain_isolate mem), ring.joined c mem]
  simp

end Ring

end Grid

namespace Layout

variable {g : Grid} {s : CellSet}

theorem form_of_ring (drawn : g.Draws s) (ring : (g.isolate s).Ring s) :
    Outline.form g s = .loop := by
  obtain ⟨start, mem, first⟩ := ring.exists_first
  have large := ring.two_le_size
  obtain ⟨rest, walked, -⟩ := ring.walk_eq (ring.leads drawn) mem
  rw [Outline.form, if_neg (by omega), ring.encloses drawn]
  simp only [ring.start?_eq drawn, first, Option.map_some, walked]

theorem any_isDashed (drawn : g.Draws s) :
    s.toList.any (fun c => Glyph.isDashed ((g.isolate s).get c)) = true
      ↔ ∃ c ∈ s, g.get c = '=' ∨ g.get c = ':' := by
  rw [List.any_eq_true]
  refine exists_congr fun c => and_congr_right fun mem => ?_
  rw [drawn.get_isolate mem]
  have plain := drawn.plain c mem
  simp only [Glyph.isPlain, Glyph.isLine, Glyph.isHorizontal, Glyph.isVertical, Bool.or_eq_true,
    beq_iff_eq] at plain
  rcases plain with ((same | same) | same | same) | same <;> rw [same] <;> decide

/-- A cleanly drawn ring is a loop, and is drawn as a closed shape with a corner wherever it bends,
in the order of a walk around it. A single dashed character makes all of it dashed. -/
theorem loop_of_ring (l : Layout) (drawn : g.Draws s) (ring : (g.isolate s).Ring s) :
    Outline.form g s = .loop ∧
      ∃ tour shape, (g.isolate s).Tour s tour ∧ l.loop? g s = .ok (some shape) ∧
        shape.closed = true ∧
        shape.points = (tour.filter (g.isolate s).bends).map l.cellSize.center ∧
        (shape.dashed = true ↔ ∃ c ∈ s, g.get c = '=' ∨ g.get c = ':') := by
  obtain ⟨start, mem, first⟩ := ring.exists_first
  have large := ring.two_le_size
  obtain ⟨rest, walked, tour⟩ := ring.walk_eq (ring.leads drawn) mem
  -- On a ring the vertices are the bends, since no cell is a line end.
  have corners : (start :: rest).filter (g.isolate s).isVertex
      = (start :: rest).filter (g.isolate s).bends :=
    List.filter_congr fun c met => ring.isVertex_eq drawn ((tour.mem c).1 met)
  have vertices : loopVertices? g l.roundAll s = .ok (some
      (((start :: rest).filter (g.isolate s).bends).map (Vertex.ofCell (g.isolate s) l.roundAll),
        s.toList.any fun c => Glyph.isDashed ((g.isolate s).get c))) := by
    simp only [loopVertices?, first, walked, corners]
    rw [if_neg (by omega)]
  have found : l.loop? g s = .ok (some
      { Shape.polygon ((((start :: rest).filter (g.isolate s).bends).map
          (Vertex.ofCell (g.isolate s) l.roundAll)).map l.node) with
        dashed := s.toList.any fun c => Glyph.isDashed ((g.isolate s).get c) }) := by
    rw [loop?, vertices]
    rfl
  refine ⟨form_of_ring drawn ring, start :: rest, _, tour, found, rfl, ?_, any_isDashed drawn⟩
  simp only [Shape.points, Shape.polygon, List.map_map]
  rfl

def box : Grid := ⟨3, 3, #['+', '=', '+', '|', ' ', '|', '+', '-', '+'], rfl⟩

def boxWalls : CellSet :=
  ⟨[⟨0, 0⟩, ⟨1, 0⟩, ⟨2, 0⟩, ⟨2, 1⟩, ⟨2, 2⟩, ⟨1, 2⟩, ⟨0, 2⟩, ⟨0, 1⟩], by decide⟩

theorem boxWalls_ring : (box.isolate boxWalls).Ring boxWalls :=
  .of_isChain (fun _ => Iff.rfl) (by decide +kernel) (by decide +kernel)

theorem loop_of_ring_box :
    box.Draws boxWalls ∧ (box.isolate boxWalls).Ring boxWalls ∧
      Outline.form box boxWalls = .loop ∧
        ∃ tour shape, (box.isolate boxWalls).Tour boxWalls tour ∧
          loop? ⟨.standard, false⟩ box boxWalls = .ok (some shape) ∧ shape.closed = true ∧
          shape.points = (tour.filter (box.isolate boxWalls).bends).map CellSize.standard.center ∧
          (shape.dashed = true ↔ ∃ c ∈ boxWalls, box.get c = '=' ∨ box.get c = ':') :=
  ⟨by decide, boxWalls_ring, loop_of_ring ⟨.standard, false⟩ (by decide) boxWalls_ring⟩

end Layout

end Linework
