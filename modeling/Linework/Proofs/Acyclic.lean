import Linework.Proofs.Enclosure
import Linework.Proofs.Margin
import Linework.Proofs.Piece
import Mathlib.Combinatorics.SimpleGraph.Matching

/-! Lines enclose something just if they close.

The lines of a cycle alone meet in twos, so they enclose a blank. Conversely, where the flood from
the corner of the canvas comes to one hand of a line and not to the other, the line is on the shore
of the flood. Around a cell the shore is left as often as it is entered, so no line of it ends, and
among lines that do not close there is none.
-/

set_option autoImplicit false

namespace Linework

def Direction.clockwise : Direction → Direction
  | .north => .east
  | .east => .south
  | .south => .west
  | .west => .north

theorem Direction.clockwise_ne (d : Direction) :
    d.clockwise ≠ d ∧ d.clockwise.clockwise ≠ d ∧ d.clockwise.clockwise.clockwise ≠ d := by
  cases d <;> decide

theorem Direction.clockwise_around (d : Direction) :
    d.clockwise.clockwise.clockwise.clockwise = d := by
  cases d <;> rfl

theorem Direction.eq_clockwise (d e : Direction) : e = d ∨ e = d.clockwise ∨
    e = d.clockwise.clockwise ∨ e = d.clockwise.clockwise.clockwise := by
  cases d <;> cases e <;> decide

namespace Grid

open Ink (render place scale mark)

variable {g : Grid} {cells : CellSet} {c n p q : Cell} {d : Direction} {dx dy : Int}

section Cycle

open scoped Classical

theorem even_of_isCycle {walk : g.web.Walk c c} (cycle : walk.IsCycle) :
    g.Even walk.toSubgraph.spanningCoe where
  within := walk.toSubgraph.spanningCoe_le
  even n := by
    by_cases bare : leaving walk.toSubgraph.spanningCoe n = []
    · rw [bare]
      rfl
    · -- A cell on the cycle has two neighbors there, and its joints step onto just these.
      have neighbors : walk.toSubgraph.spanningCoe.neighborSet n
          = ((leaving walk.toSubgraph.spanningCoe n).map n.step).toFinset := by
        ext m
        rw [SimpleGraph.mem_neighborSet, List.coe_toFinset, Set.mem_ofPred_eq, List.mem_map]
        constructor
        · intro adj
          obtain ⟨d, -, rfl⟩ := walk.toSubgraph.spanningCoe_le adj
          exact ⟨d, mem_leaving.2 adj, rfl⟩
        · rintro ⟨d, mem, rfl⟩
          exact mem_leaving.1 mem
      obtain ⟨d, mem⟩ := List.exists_mem_of_ne_nil _ bare
      have two := cycle.isCycles_spanningCoe_toSubgraph ⟨n.step d, mem_leaving.1 mem⟩
      rw [neighbors, Set.ncard_coe_finset, List.toFinset_card_of_nodup, List.length_map] at two
      · rw [two]
      · exact nodup_map_step (List.Nodup.filter _ (by decide))

theorem Inked.fill_leaves_blank_of_cycle (inked : g.Inked cells) (closed : ¬ g.web.IsAcyclic) :
    ∃ filled area, (render g cells).fill ⟨0, 0⟩ mark = .ok (filled, area) ∧ filled.hasBlank := by
  rw [SimpleGraph.IsAcyclic] at closed
  push Not at closed
  obtain ⟨c, walk, cycle⟩ := closed
  obtain ⟨d, joint, same⟩ := SimpleGraph.Walk.adj_snd cycle.not_nil
  refine inked.fill_leaves_blank (even_of_isCycle cycle) (d := d) (c := c) (mem_leaving.2 ?_)
  rw [← same]
  exact walk.toSubgraph_adj_snd cycle.not_nil

end Cycle

/-- A graph in which no edge ends in the open has a cycle, unless it has no edge. -/
theorem not_adj_of_acyclic {lines : SimpleGraph Cell} [Finite lines.edgeSet]
    (acyclic : lines.IsAcyclic)
    (onward : ∀ c n, lines.Adj c n → ∃ m, lines.Adj c m ∧ m ≠ n) : ¬ lines.Adj c n := by
  intro adj
  have : Nonempty Cell := ⟨c⟩
  obtain ⟨a, b, walk, path, longest⟩ :=
    SimpleGraph.Walk.exists_isPath_forall_isPath_length_le_length lines
  have long := longest _ _ adj.toWalk (SimpleGraph.Walk.IsPath.of_adj adj)
  have some : ¬ walk.Nil := fun none => by
    rw [SimpleGraph.Walk.length_eq_zero_iff.2 none, SimpleGraph.Walk.length_cons] at long
    exact Nat.not_succ_le_zero _ long
  -- At its end the longest path goes on, and not back into itself.
  obtain ⟨m, ahead, differ⟩ := onward b _ (walk.adj_penultimate some).symm
  have new : m ∉ walk.support := fun met =>
    differ (acyclic.eq_penultimate_of_adj_end path ahead met)
  have longer := longest _ _ (walk.concat ahead) (path.concat new ahead)
  rw [SimpleGraph.Walk.length_concat] at longer
  omega

/-! ### The flood -/

structure Framed (g : Grid) (cells : CellSet) : Prop where
  roles : ∀ c r, g.role? c = some r → c ∈ cells
  starless : ∀ c, g.role? c ≠ some .star
  margin : ∀ c ∈ cells, ∀ d, c.step d ∈ g

def Flooded (g : Grid) (cells : CellSet) (p : Cell) : Prop :=
  (render g cells).areas.Reachable ⟨0, 0⟩ p

/-- The fine cell in a corner of the square of a cell, on one hand or the other of a side. -/
def flank (c : Cell) (d : Direction) (hand : Int) : Cell :=
  place c (d.dx - hand * d.dy) (d.dy + hand * d.dx)

/-- Whether a side of a cell has the flood on one hand only. -/
def Parted (g : Grid) (cells : CellSet) (c : Cell) (d : Direction) : Prop :=
  ¬ (Flooded g cells (flank c d 1) ↔ Flooded g cells (flank c d (-1)))

def shore (g : Grid) (cells : CellSet) : SimpleGraph Cell where
  Adj c n := (c ∈ g ∧ n ∈ g) ∧
    ∃ d, n = c.step d ∧ Parted g cells c d ∧ Parted g cells n d.opposite
  symm := ⟨by
    rintro c n ⟨inside, d, rfl, here, there⟩
    refine ⟨inside.symm, d.opposite, (Cell.step_step_opposite c d).symm, there, ?_⟩
    rwa [Direction.opposite_opposite]⟩
  loopless := ⟨by
    rintro c ⟨-, d, same, -⟩
    exact c.step_ne d same.symm⟩

theorem flooded_congr (here : (render g cells).get p = Glyph.blank)
    (there : (render g cells).get q = Glyph.blank) (near : q ∈ p.orthogonal) :
    Flooded g cells p ↔ Flooded g cells q := by
  have adj : (render g cells).areas.Adj p q := by
    refine ⟨⟨mem_of_get_ne_outside ?_, mem_of_get_ne_outside ?_⟩, near, here.trans there.symm⟩
    · rw [here]
      decide
    · rw [there]
      decide
  exact ⟨fun flooded => flooded.trans adj.reachable,
    fun flooded => flooded.trans adj.symm.reachable⟩

theorem place_mem (inside : c ∈ g) (xNear : -1 ≤ dx ∧ dx ≤ 1) (yNear : -1 ≤ dy ∧ dy ≤ 1) :
    place c dx dy ∈ render g cells := by
  have bounds := mem_def.1 inside
  rw [Ink.mem_render]
  simp only [mem_def, place, Ink.scale, blank]
  omega

theorem flank_clockwise (c : Cell) (d : Direction) : flank c d.clockwise (-1) = flank c d 1 := by
  cases d <;> rfl

theorem flank_step (c : Cell) (d : Direction) (hand : Int) :
    (flank c d (-hand)).step d = flank (c.step d) d.opposite hand := by
  cases d <;> ext <;>
    simp [flank, place, Ink.scale, Direction.dx, Direction.dy, Direction.opposite] <;> omega

theorem flank_mem_orthogonal (c : Cell) (d : Direction) {hand : Int}
    (either : hand = 1 ∨ hand = -1) : flank c d hand ∈ (place c d.dx d.dy).orthogonal := by
  rcases either with rfl | rfl <;> cases d <;>
    simp [Cell.orthogonal, Cell.north, Cell.south, Cell.east, Cell.west, flank, place, Ink.scale,
      Direction.dx, Direction.dy, Cell.ext_iff]

theorem get_flank (inside : c ∈ g) (hollow : g.role? c ≠ some .star) (d : Direction) {hand : Int}
    (either : hand = 1 ∨ hand = -1) : (render g cells).get (flank c d hand) = Glyph.blank := by
  refine Ink.get_place_corner inside hollow ?_ ?_ <;>
    rcases either with rfl | rfl <;> cases d <;> simp [Direction.dx, Direction.dy]

theorem get_side_of_center (inside : c ∈ g)
    (blank : (render g cells).get (place c 0 0) = Glyph.blank) (xNear : -1 ≤ dx ∧ dx ≤ 1)
    (yNear : -1 ≤ dy ∧ dy ≤ 1) : (render g cells).get (place c dx dy) = Glyph.blank := by
  refine (Ink.get_render_eq_mark_or_blank (place_mem inside xNear yNear)).resolve_left ?_
  intro marked
  obtain ⟨mem, r, ink, role, drawn, entry⟩ := (Ink.get_place_eq_mark xNear yNear).1 marked
  have center : (render g cells).get (place c 0 0) = mark :=
    (Ink.get_place_eq_mark (by decide) (by decide)).2
      ⟨mem, r, ink, role, drawn, (Ink.entry_inward drawn entry).2⟩
  rw [blank] at center
  exact absurd center (by decide)

theorem get_side (inside : c ∈ g) (clear : ¬ g.inksSide c d) :
    (render g cells).get (place c d.dx d.dy) = Glyph.blank := by
  have near : (-1 ≤ d.dx ∧ d.dx ≤ 1) ∧ -1 ≤ d.dy ∧ d.dy ≤ 1 := by cases d <;> decide
  refine (Ink.get_render_eq_mark_or_blank (place_mem inside near.1 near.2)).resolve_left
    fun marked => clear ?_
  obtain ⟨-, r, ink, role, drawn, entry⟩ := (Ink.get_place_eq_mark near.1 near.2).1 marked
  exact inksSide_iff.2 ⟨r, ink, role, drawn, Ink.side_of_entry drawn entry (by cases d <;> decide)⟩

namespace Framed

variable (framed : g.Framed cells)
include framed

theorem inked : g.Inked cells where
  drawn c d joint := by
    obtain ⟨r, -, role, -⟩ := inksSide_iff.1 (mem_joints.1 joint).1
    exact framed.roles c r role
  starless := framed.starless

theorem get_flank (inside : c ∈ g) {hand : Int} (either : hand = 1 ∨ hand = -1) :
    (render g cells).get (flank c d hand) = Glyph.blank :=
  Grid.get_flank inside (framed.starless c) d either

/-- The flood passes a blank side from one hand to the other. -/
theorem not_parted_of_blank (inside : c ∈ g)
    (blank : (render g cells).get (place c d.dx d.dy) = Glyph.blank) : ¬ Parted g cells c d := by
  have toFlank {hand : Int} (either : hand = 1 ∨ hand = -1) :=
    flooded_congr blank (framed.get_flank inside either) (flank_mem_orthogonal c d either)
  exact not_not_intro ((toFlank (.inl rfl)).symm.trans (toFlank (.inr rfl)))

theorem flooded_flank_step (inside : c ∈ g) (inside' : c.step d ∈ g) {hand : Int}
    (either : hand = 1 ∨ hand = -1) :
    Flooded g cells (flank c d (-hand)) ↔ Flooded g cells (flank (c.step d) d.opposite hand) := by
  refine flooded_congr (framed.get_flank inside (by omega)) (framed.get_flank inside' either) ?_
  exact Cell.mem_orthogonal.2 ⟨d, (flank_step c d hand).symm⟩

theorem parted_opposite (inside : c ∈ g) (inside' : c.step d ∈ g) :
    Parted g cells (c.step d) d.opposite ↔ Parted g cells c d := by
  have left := framed.flooded_flank_step inside inside' (.inl rfl)
  have right := framed.flooded_flank_step inside inside' (.inr rfl)
  rw [Int.neg_neg] at right
  rw [Parted, Parted, ← left, ← right]
  exact not_congr iff_comm

theorem shore_adj (inside : c ∈ g) (inside' : c.step d ∈ g) :
    (shore g cells).Adj c (c.step d) ↔ Parted g cells c d := by
  constructor
  · rintro ⟨-, e, same, here, -⟩
    rwa [Cell.step_injective c same]
  · intro here
    exact ⟨⟨inside, inside'⟩, d, rfl, here, (framed.parted_opposite inside inside').2 here⟩

theorem shore_le : shore g cells ≤ g.web := by
  rintro c n ⟨⟨inside, inside'⟩, d, rfl, here, there⟩
  refine adj_step.2 (mem_joints.2 ⟨?_, ?_⟩)
  · by_contra clear
    exact framed.not_parted_of_blank inside (get_side inside clear) here
  · by_contra clear
    exact framed.not_parted_of_blank inside' (get_side inside' clear) there

omit framed in
/-- Around a cell, the flood is parted twice if at all. -/
theorem exists_parted (here : Parted g cells c d) : ∃ e, Parted g cells c e ∧ e ≠ d := by
  by_contra only
  push Not at only
  have pass (e : Direction) (differ : e.clockwise ≠ d) :
      Flooded g cells (flank c e 1) ↔ Flooded g cells (flank c e.clockwise 1) := by
    rw [← flank_clockwise]
    exact (not_not.1 (mt (only _) differ)).symm
  obtain ⟨second, third, fourth⟩ := d.clockwise_ne
  -- From the one hand to the other, the flood comes around by the three other sides.
  have around := ((pass d second).trans (pass _ third)).trans (pass _ fourth)
  rw [← flank_clockwise c d.clockwise.clockwise.clockwise, d.clockwise_around] at around
  exact here around

theorem finite_shore : Finite (shore g cells).edgeSet := by
  refine Set.Finite.subset (cells.toList.toFinset.sym2.finite_toSet) fun edge mem => ?_
  induction edge with
  | _ c n =>
    rw [SimpleGraph.mem_edgeSet] at mem
    obtain ⟨d, joint, -⟩ := framed.shore_le mem
    obtain ⟨e, joint', -⟩ := framed.shore_le mem.symm
    rw [Finset.mem_coe, Finset.mk_mem_sym2_iff, List.mem_toFinset, List.mem_toFinset]
    exact ⟨framed.inked.drawn c d joint, framed.inked.drawn n e joint'⟩

/-- Where lines do not close, the flood is not parted by any of them. -/
theorem not_parted (acyclic : g.web.IsAcyclic) (inside : c ∈ g) : ¬ Parted g cells c d := by
  intro here
  by_cases inside' : c.step d ∈ g
  · have := framed.finite_shore
    refine not_adj_of_acyclic (acyclic.anti framed.shore_le) (fun a b adj => ?_)
      ((framed.shore_adj inside inside').2 here)
    obtain ⟨joined, e, rfl, parted, -⟩ := adj
    obtain ⟨f, other, differ⟩ := exists_parted parted
    have joint := adj_step.1 (framed.shore_le ((framed.shore_adj joined.1 joined.2).2 parted))
    have room := framed.margin a (framed.inked.drawn a e joint) f
    exact ⟨a.step f, (framed.shore_adj joined.1 room).2 other,
      fun same => differ (Cell.step_injective a same)⟩
  · -- At the edge of the grid there is no ink to part the flood.
    refine framed.not_parted_of_blank inside (get_side inside fun inked => ?_) here
    obtain ⟨r, -, role, -⟩ := inksSide_iff.1 inked
    exact inside' (framed.margin c (framed.roles c r role) d)

theorem flooded_flank (acyclic : g.web.IsAcyclic) (inside : c ∈ g)
    (here : Flooded g cells (flank c d 1)) (e : Direction) : Flooded g cells (flank c e 1) := by
  have next (d : Direction) (here : Flooded g cells (flank c d 1)) :
      Flooded g cells (flank c d.clockwise 1) := by
    rw [← flank_clockwise] at here
    exact (not_not.1 (framed.not_parted acyclic inside)).2 here
  rcases d.eq_clockwise e with rfl | rfl | rfl | rfl
  · exact here
  · exact next _ here
  · exact next _ (next _ here)
  · exact next _ (next _ (next _ here))

theorem flooded_square (acyclic : g.web.IsAcyclic) (inside : c ∈ g) (d : Direction) :
    Flooded g cells (flank c d 1) := by
  -- By the distance from the first cell: a step west or north shortens it.
  induction walked : c.x.toNat + c.y.toNat using Nat.strong_induction_on generalizing c d with
  | _ far ih =>
    have bounds := mem_def.1 inside
    have back : (c.x = 0 ∧ c.y = 0) ∨ ∃ e, c.step e ∈ g ∧
        (c.step e).x.toNat + (c.step e).y.toNat < far := by
      by_cases first : c.x = 0
      · by_cases top : c.y = 0
        · exact .inl ⟨first, top⟩
        · refine .inr ⟨.north, ?_⟩
          simp only [mem_def, Cell.step_x, Cell.step_y, Direction.dx, Direction.dy]
          omega
      · refine .inr ⟨.west, ?_⟩
        simp only [mem_def, Cell.step_x, Cell.step_y, Direction.dx, Direction.dy]
        omega
    rcases back with ⟨first, top⟩ | ⟨e, inside', less⟩
    · have start : flank c .west 1 = ⟨0, 0⟩ := by
        ext <;> simp [flank, place, Ink.scale, Direction.dx, Direction.dy, first, top]
      refine framed.flooded_flank acyclic inside (d := .west) ?_ d
      rw [start]
      exact SimpleGraph.Reachable.refl _
    · have reached := ih _ less inside' e.opposite rfl
      rw [← framed.flooded_flank_step inside inside' (.inl rfl)] at reached
      exact framed.flooded_flank acyclic inside
        ((not_not.1 (framed.not_parted acyclic inside)).2 reached) d

/-- Without a closed line the flood comes to every blank. -/
theorem flooded_of_blank (acyclic : g.web.IsAcyclic)
    (blank : (render g cells).get p = Glyph.blank) : Flooded g cells p := by
  obtain ⟨dx, dy, xNear, yNear, square⟩ := Ink.exists_place p
  have inside : p.shrink scale ∈ g := by
    have bounds := mem_of_get_ne_outside (g := render g cells) (c := p) (by rw [blank]; decide)
    rw [Ink.mem_render] at bounds
    simp only [mem_def, Grid.blank, Ink.scale, Cell.shrink] at bounds ⊢
    omega
  generalize p.shrink scale = c at square inside
  subst square
  have side (d : Direction) (clear : (render g cells).get (place c d.dx d.dy) = Glyph.blank) :
      Flooded g cells (place c d.dx d.dy) :=
    (flooded_congr clear (framed.get_flank inside (.inl rfl))
      (flank_mem_orthogonal c d (.inl rfl))).2 (framed.flooded_square acyclic inside d)
  have corner (d : Direction) : Flooded g cells (flank c d 1) :=
    framed.flooded_square acyclic inside d
  have xCases : dx = -1 ∨ dx = 0 ∨ dx = 1 := by omega
  have yCases : dy = -1 ∨ dy = 0 ∨ dy = 1 := by omega
  -- The corners of a square are flanks of its cell; a blank side lies beside a flank.
  rcases xCases with rfl | rfl | rfl <;> rcases yCases with rfl | rfl | rfl
  · exact corner .west
  · exact side .west blank
  · exact corner .south
  · exact side .north blank
  · -- A blank center has blanks all around it.
    have clear : (render g cells).get (place c 0 (-1)) = Glyph.blank :=
      get_side_of_center inside blank (by decide) (by decide)
    refine (flooded_congr blank clear ?_).2 (side .north clear)
    simp [Cell.orthogonal, Cell.north, Cell.ext_iff, Ink.place, Direction.dx, Direction.dy]
  · exact side .south blank
  · exact corner .north
  · exact side .east blank
  · exact corner .east

theorem fill_leaves_none (acyclic : g.web.IsAcyclic) (inside : (⟨0, 0⟩ : Cell) ∈ g) :
    ∃ filled area, (render g cells).fill ⟨0, 0⟩ mark = .ok (filled, area) ∧
      filled.hasBlank = false := by
  have corner : (render g cells).get ⟨0, 0⟩ = Glyph.blank :=
    framed.inked.get_corner (c := ⟨0, 0⟩) (-1) (-1) inside (.inl rfl) (.inl rfl)
  obtain ⟨area, filled, -, mem⟩ := fill_eq mark
    (mem_of_get_ne_outside (g := render g cells) (c := ⟨0, 0⟩) (by rw [corner]; decide))
    (by rw [corner]; decide)
  refine ⟨_, area, filled, eq_false_of_ne_true fun some => ?_⟩
  obtain ⟨p, blank⟩ := exists_blank some
  rw [get_overwrite] at blank
  split at blank
  · exact absurd blank (by decide)
  · rename_i dry
    have wet := framed.flooded_of_blank acyclic blank
    exact dry ⟨(mem p).2 wet, mem_of_get_ne_outside (by rw [blank]; decide)⟩

end Framed

end Grid

namespace Outline

variable {g : Grid} {s : CellSet} {c : Cell}

theorem mem_of_role?_isolate {r : Role} (role : (g.isolate s).role? c = some r) : c ∈ s := by
  by_contra out
  rw [Grid.role?_of_empty (Grid.empty_isolate_of_not_mem out)] at role
  cases role

/-- A set encloses something just if its lines close. -/
theorem encloses_eq (inside : ∀ c ∈ s, c ∈ g)
    (starless : ∀ c ∈ s, (g.isolate s).role? c ≠ some .star) (mem : c ∈ s) :
    ∃ enclosed, encloses g s = .ok enclosed ∧
      (enclosed = false ↔ (g.isolate s).web.IsAcyclic) := by
  obtain ⟨alone, dx, dy, localized, moves, margin⟩ := localize?_moves inside mem
  have framed : alone.Framed (s.translate dx dy) := by
    refine ⟨fun n r role => ?_, fun n => ?_, margin⟩
    · obtain ⟨c, rfl⟩ := n.exists_translate dx dy
      rw [moves.role?] at role
      exact CellSet.mem_translate.2 (mem_of_role?_isolate role)
    · obtain ⟨c, rfl⟩ := n.exists_translate dx dy
      rw [moves.role?]
      exact fun star => starless c (mem_of_role?_isolate star) star
  rw [← moves.isAcyclic_iff]
  -- The fill that decides runs in the localized grid: without a cycle it leaves no blank cell.
  by_cases acyclic : alone.web.IsAcyclic
  · have corner : (⟨0, 0⟩ : Cell) ∈ alone := by
      have bounds := Grid.mem_def.1 (margin _ (CellSet.mem_translate.2 mem) .north)
      simp only [Grid.mem_def]
      omega
    obtain ⟨filled, area, done, none⟩ := framed.fill_leaves_none acyclic corner
    refine ⟨false, ?_, by simp [acyclic]⟩
    rw [encloses, localized]
    simp [done, none, bind, Except.bind, pure, Except.pure]
  · exact ⟨true, encloses_of_fill localized (framed.inked.fill_leaves_blank_of_cycle acyclic),
      by simp [acyclic]⟩

theorem contacts_isolate (g : Grid) (s : CellSet) :
    Ink.contacts (g.isolate s) s = (g.isolate s).web := by
  ext c n
  rw [Ink.contacts_adj]
  exact ⟨fun both => both.2, fun adj => ⟨Grid.mem_of_adj_isolate adj, adj⟩⟩

theorem isAcyclic_of_size (few : s.size ≤ 1) : (g.isolate s).web.IsAcyclic := by
  have bare : (g.isolate s).web = ⊥ := by
    ext c n
    refine ⟨fun adj => ?_, False.elim⟩
    obtain ⟨mem, mem'⟩ := Grid.mem_of_adj_isolate adj
    have pair : [c, n].Nodup := by simpa using adj.ne
    have within : [c, n] ⊆ s.toList := by simp [← CellSet.mem_def, mem, mem']
    have both := (List.subperm_of_subset pair within).length_le
    exact absurd (Nat.le_trans both few) (by simp)
  rw [bare]
  exact SimpleGraph.isAcyclic_bot

/-- Without stars, a set of cells is open just if no cycle runs through cells that have ink on both
sides of the borders between them. -/
theorem form_eq_strand_iff (inside : ∀ c ∈ s, c ∈ g)
    (starless : ∀ c ∈ s, (g.isolate s).role? c ≠ some .star) :
    form g s = .strand ↔ (Ink.contacts (g.isolate s) s).IsAcyclic := by
  rw [contacts_isolate]
  by_cases few : s.size ≤ 1
  · exact ⟨fun _ => isAcyclic_of_size few, fun _ => if_pos few⟩
  · obtain ⟨c, mem⟩ := List.exists_mem_of_length_pos (l := s.toList) (by
      rw [CellSet.size] at few
      omega)
    obtain ⟨enclosed, found, closed⟩ := encloses_eq inside starless mem
    rw [form, if_neg few, found, ← closed]
    cases enclosed with
    | false => simp
    | true =>
      simp only [Bool.true_eq_false, iff_false]
      split <;> simp

def tee : Grid := ⟨3, 2, #['-', '+', '-', ' ', '|', ' '], rfl⟩

def teeLines : CellSet := ⟨[⟨0, 0⟩, ⟨1, 0⟩, ⟨2, 0⟩, ⟨1, 1⟩], by decide⟩

theorem teeLines_mem : ∀ c ∈ teeLines.toList, c ∈ tee := by decide

theorem teeLines_starless :
    ∀ c ∈ teeLines.toList, (tee.isolate teeLines).role? c ≠ some .star := by decide +kernel

theorem form_eq_strand_iff_tee :
    (∀ c ∈ teeLines, c ∈ tee) ∧ (∀ c ∈ teeLines, (tee.isolate teeLines).role? c ≠ some .star) ∧
      (form tee teeLines = .strand ↔ (Ink.contacts (tee.isolate teeLines) teeLines).IsAcyclic) :=
  ⟨teeLines_mem, teeLines_starless, form_eq_strand_iff teeLines_mem teeLines_starless⟩

end Outline

end Linework
