import Linework.Proofs.Acyclic
import Linework.Proofs.Survey

/-! Every drawn cell lies on an outline.

The ink of a cell always meets a blank. Where a line comes in, the corners of the square beside it
are blank. A star fills its square, but not that of the line that comes to it.
-/

set_option autoImplicit false

namespace Linework

namespace Ink

open Grid (flank get_flank)

variable {g : Grid} {cells : CellSet} {c : Cell} {r : Role}

theorem exists_neighbor_of_star (role : g.role? c = some .star) :
    ∃ d, c.step d ∈ g ∧ g.role? (c.step d) ≠ some .star := by
  obtain ⟨d, arm⟩ := Window.exists_arm_of_isStar (Window.shows_of_role? role)
  rw [Grid.hasArm_window] at arm
  refine ⟨d, Grid.mem_of_get_ne_outside fun outside => ?_, fun role' => ?_⟩
  · rw [Grid.not_runs_of_empty (.inr outside)] at arm
    cases arm
  · have center := Window.center_of_isStar (Window.shows_of_role? role')
    rw [Grid.center_window] at center
    rw [center] at arm
    revert arm
    cases d <;> decide

theorem star_mark_flank (role : g.role? c = some .star) (mem : c ∈ cells) (d : Direction)
    {hand : Int} (either : hand = 1 ∨ hand = -1) :
    (render g cells).get (flank c d hand) = mark := by
  refine get_render_eq_mark.2 ⟨c, mem, inks_place role rfl ?_⟩
  rcases either with rfl | rfl <;> cases d <;> decide

/-- Somewhere the ink of a drawn cell lies beside a blank. -/
theorem Drawn.exists_blank_beside (drawn : Drawn g cells c) :
    ∃ n q, (render g cells).get n = mark ∧ n.shrink scale = c ∧
      (render g cells).get q = Glyph.blank ∧ n ∈ q.orthogonal := by
  obtain ⟨mem, r, role, shown⟩ := drawn
  by_cases star : r = .star
  case pos =>
    subst star
    obtain ⟨d, inside, hollow⟩ := exists_neighbor_of_star role
    refine ⟨flank c d 1, flank (c.step d) d.opposite (-1),
      star_mark_flank role mem d (.inl rfl), ?_, get_flank inside hollow _ (.inr rfl), ?_⟩
    · cases d <;> exact shrink_place (by decide) (by decide)
    · rw [← Grid.flank_step, Cell.mem_orthogonal_comm]
      exact Cell.mem_orthogonal.2 ⟨d, rfl⟩
  case neg =>
    obtain ⟨d, arm⟩ := Role.exists_arm shown star
    refine ⟨place c d.dx d.dy, flank c d 1, mark_side mem (Grid.inksSide_of_mem_arms role arm), ?_,
      get_flank (mem_of_role? role) (by simp [role, star]) d (.inl rfl), ?_⟩
    · cases d <;> exact shrink_place (by decide) (by decide)
    · rw [Cell.mem_orthogonal_comm]
      exact Grid.flank_mem_orthogonal c d (.inl rfl)

end Ink

namespace Outline

variable {g : Grid} {s : CellSet} {family : List CellSet} {c : Cell}

theorem Outlines.exists_mem (outlines : Outlines g s family) (drawn : Ink.Drawn g s c) :
    ∃ o ∈ family, c ∈ o := by
  obtain ⟨n, q, marked, rfl, blank, near⟩ := drawn.exists_blank_beside
  let region : Set Cell := {p | (Ink.render g s).areas.Reachable q p}
  have beside : n.shrink Ink.scale ∈ edge (Ink.render g s) region :=
    ⟨n, marked, ⟨q, SimpleGraph.Reachable.refl q, near⟩, rfl⟩
  have traced : edge (Ink.render g s) region ∈ {t | ∃ o ∈ family, t = o.members} := by
    rw [outlines.regions]
    exact ⟨⟨_, beside⟩, region, Grid.isRegion_areas blank, rfl⟩
  obtain ⟨o, mem, same⟩ := traced
  rw [same] at beside
  exact ⟨o, mem, beside⟩

theorem mem_all_iff {outlines : List CellSet} (found : all g = .ok outlines) :
    (∃ o ∈ outlines, c ∈ o) ↔ ∃ r, g.role? c = some r ∧ r ≠ .stub := by
  obtain ⟨pieces, families, taken, whole, related⟩ := exists_families g
  obtain rfl : families.flatten = outlines := Except.ok.inj (whole.symm.trans found)
  constructor
  · rintro ⟨o, mem, member⟩
    obtain ⟨family, listed, mem⟩ := List.mem_flatten.1 mem
    obtain ⟨s, piece, outlines⟩ := forall₂_mem related listed
    exact ((Ink.mem_pieces_iff taken).1 ⟨s, piece, outlines.mem_of_mem mem member⟩).2
  · intro shown
    obtain ⟨s, piece, member⟩ := (Ink.mem_pieces_iff taken).2 (Ink.drawn_inked_iff.2 shown)
    obtain ⟨family, listed, outlines⟩ := forall₂_mem related.flip piece
    obtain ⟨o, mem, inside⟩ := outlines.exists_mem ⟨member, shown⟩
    exact ⟨o, List.mem_flatten.2 ⟨family, listed, mem⟩, inside⟩

/-- The outlines of a drawing have together just the cells that draw part of an outline and whose
role has ink. These are all but the stubs and the stars without a role, and all line characters are
among them. -/
theorem all_covers_drawing (g : Grid) : ∃ outlines, all g = .ok outlines ∧
    (∀ c, (∃ o ∈ outlines, c ∈ o) ↔
      c ∈ g.inked ∧ ∃ ink, (g.role? c).bind Ink.ofRole? = some ink) ∧
    (∀ c, (∃ o ∈ outlines, c ∈ o) ↔
      c ∈ g.inked ∧ g.role? c ≠ some .stub ∧ ¬ (g.get c = '*' ∧ g.role? c = none)) ∧
    ∀ c, g.get c ∈ ['-', '=', '|', ':'] → ∃ o ∈ outlines, c ∈ o := by
  obtain ⟨-, families, -, whole, -⟩ := exists_families g
  refine ⟨_, whole, fun c => ?_, fun c => ?_, fun c line => ?_⟩
  · rw [mem_all_iff whole, ← Ink.drawn_inked_iff, Ink.Drawn]
    refine and_congr_right fun _ => ?_
    cases g.role? c <;> simp [Ink.exists_ofRole?]
  · rw [mem_all_iff whole, ← Ink.drawn_inked_iff, Ink.Drawn]
    refine and_congr_right fun inked => ?_
    -- An inked cell without a role shows a star.
    cases role : g.role? c with
    | none =>
      have star := Window.center_of_isInked (Grid.mem_inked.1 inked).2 role
      rw [Grid.center_window] at star
      simp [star]
    | some r => simp
  · obtain ⟨a, line⟩ : ∃ a, (g.window c).line? = some a := by
      apply Grid.line?_of_isLine
      simp only [List.mem_cons, List.not_mem_nil, or_false] at line
      rcases line with same | same | same | same <;> rw [same] <;> decide
    exact (mem_all_iff whole).2 ⟨.line a, Window.role?_of_line? line, by simp⟩

def spark : Grid := ⟨3, 1, #['*', '-', '+'], rfl⟩

theorem all_covers_drawing_spark :
    spark.get ⟨1, 0⟩ ∈ ['-', '=', '|', ':'] ∧ ∃ outlines, all spark = .ok outlines ∧
      ∃ o ∈ outlines, ⟨1, 0⟩ ∈ o := by
  have line : spark.get ⟨1, 0⟩ ∈ ['-', '=', '|', ':'] := by decide
  obtain ⟨outlines, found, -, -, lines⟩ := all_covers_drawing spark
  exact ⟨line, outlines, found, lines _ line⟩

end Outline

end Linework
