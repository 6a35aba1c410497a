import Linework.Page
import Linework.Proofs.Strings

/-! Arrowheads before and after the lines come into the open.

Giving way to a line never makes an arrowhead of a letter, and a letter next to an arrowhead never
gives way along its heading. So the arrowheads on the open lines are those there were before, but for
the ones that a line reaches through a star.
-/

set_option autoImplicit false

namespace Linework

namespace Arrow

variable {g : Grid} {c : Cell} {char : Char} {heading : Direction}

theorem not_isLine_of_heading? (points : heading? char = some heading) :
    Glyph.isHorizontal char = false ∧ Glyph.isVertical char = false := by
  unfold heading? at points
  split at points
  case h_6 => cases points
  all_goals exact ⟨rfl, rfl⟩

theorem mem_of_at? (head : at? g c = some heading) : c ∈ g := by
  by_contra out
  rw [at?, Grid.get_of_not_mem out] at head
  cases head

theorem mem_all : (c, heading) ∈ all g ↔ at? g c = some heading := by
  simp only [all, List.mem_filterMap, Grid.mem_cells, Option.map_eq_some_iff, Prod.mk.injEq]
  constructor
  · rintro ⟨_, -, _, head, rfl, rfl⟩
    exact head
  · exact fun head => ⟨c, mem_of_at? head, heading, head, rfl, rfl⟩

end Arrow

namespace Overprint

variable {g : Grid} {under? : Grid → Cell → Option Char} {c : Cell} {char : Char}
variable {heading : Direction}

theorem get_write (cells : List Cell) (f : Cell → Option Char) :
    ((cells.filterMap fun c => (f c).map fun char => (c, char)).foldl
      (fun acc found => acc.set found.1 found.2) g).get c
    = if c ∈ cells ∧ c ∈ g then (f c).getD (g.get c) else g.get c := by
  induction cells generalizing g with
  | nil => simp
  | cons first rest ih =>
    cases same : f first with
    | none =>
      rw [List.filterMap_cons_none (by rw [same]; rfl), ih]
      by_cases eq : c = first
      · subst eq
        simp [same]
      · simp [eq]
    | some char =>
      rw [List.filterMap_cons_some (by rw [same]; rfl), List.foldl_cons, ih, Grid.get_set]
      by_cases eq : c = first
      · subst eq
        by_cases inside : c ∈ g <;> simp [same, inside]
      · simp [eq]

theorem get_uncover : (uncover g under?).get c
    = if c ∈ g then (under? g c).getD (g.get c) else g.get c := by
  rw [uncover, get_write]
  simp only [Grid.mem_cells, and_self]

theorem heading?_of_lineAlong? {across along : Bool} (line : lineAlong? across along = some char) :
    Arrow.heading? char = none := by
  revert line
  cases across <;> cases along <;> simp only [lineAlong?] <;> rintro ⟨⟩ <;> rfl

theorem heading?_of_underLetter? (line : underLetter? g c = some char) :
    Arrow.heading? char = none := by
  rw [underLetter?] at line
  split at line
  · exact heading?_of_lineAlong? line
  · cases line

theorem heading?_of_underStar? (line : underStar? g c = some char) :
    Arrow.heading? char = none := by
  rw [underStar?] at line
  split at line
  · exact heading?_of_lineAlong? line
  · cases line

/-- A character that points somewhere has not come up from under another. -/
theorem get_of_heading? (plain : ∀ char, under? g c = some char → Arrow.heading? char = none)
    (points : Arrow.heading? ((uncover g under?).get c) = some heading) :
    (uncover g under?).get c = g.get c := by
  rw [get_uncover] at points ⊢
  split at points
  · rename_i inside
    rw [if_pos inside]
    cases hidden : under? g c with
    | none => rfl
    | some char =>
      rw [hidden, Option.getD_some, plain char hidden] at points
      cases points
  · rename_i outside
    rw [if_neg outside]

theorem runsHorizontally_of_lineAlong? {along : Bool} (line : lineAlong? false along = some char) :
    Glyph.runsHorizontally char = false := by
  cases along <;> cases line
  rfl

theorem runsVertically_of_lineAlong? {across : Bool} (line : lineAlong? across false = some char) :
    Glyph.runsVertically char = false := by
  cases across <;> cases line
  rfl

/-- What lies under a letter behind an arrowhead does not run into the arrowhead. -/
theorem shaft_of_underLetter? (points : Arrow.heading? (g.get (c.step heading)) = some heading)
    (line : underLetter? g c = some char) : Arrow.shaft heading char = false := by
  obtain ⟨across, along⟩ := Arrow.not_isLine_of_heading? points
  rw [underLetter?] at line
  split at line
  · simp only [Cell.north, Cell.south, Cell.east, Cell.west] at line
    cases heading <;> simp only [across, along, Bool.false_and, Bool.and_false] at line
    case east => exact runsHorizontally_of_lineAlong? line
    case west => exact runsHorizontally_of_lineAlong? line
    case north => exact runsVertically_of_lineAlong? line
    case south => exact runsVertically_of_lineAlong? line
  · cases line

theorem mem_marked : c ∈ (clear g).2 ↔ c ∈ uncover g underLetter? ∧
    (underStar? (uncover g underLetter?) c).isSome := by
  rw [clear, Grid.select, CellSet.mem_filter]
  exact and_congr_left fun _ => Grid.mem_cells

/-- What is not marked is as it was after the letters gave way. -/
theorem get_of_not_marked (unmarked : c ∉ (clear g).2) :
    (clear g).1.get c = (uncover g underLetter?).get c := by
  rw [clear, get_uncover]
  split
  · rename_i inside
    rw [Option.not_isSome_iff_eq_none.1 fun found => unmarked (mem_marked.2 ⟨inside, found⟩),
      Option.getD_none]
  · rfl

/-- An arrowhead that a line runs into once it is in the open was one before, unless the line gets
to it through a marked cell. -/
theorem at?_of_clear (head : Arrow.at? (clear g).1 c = some heading)
    (unmarked : c.step heading.opposite ∉ (clear g).2) : Arrow.at? g c = some heading := by
  obtain ⟨points, enters⟩ := Option.filter_eq_some_iff.1 head
  -- The arrowhead's own character went through both passes; only what is behind it is in question.
  have kept := get_of_heading? (fun _ => heading?_of_underStar?) points
  rw [show (clear g).1.get c = _ from kept] at points
  have old := get_of_heading? (fun _ => heading?_of_underLetter?) points
  rw [old] at points
  refine Option.filter_eq_some_iff.2 ⟨points, ?_⟩
  rw [get_of_not_marked unmarked, get_uncover] at enters
  split at enters
  · cases hidden : underLetter? g (c.step heading.opposite) with
    | none => rwa [hidden] at enters
    | some char =>
      have back : (c.step heading.opposite).step heading = c := by
        simpa using Cell.step_step_opposite c heading.opposite
      rw [hidden, Option.getD_some, shaft_of_underLetter? (by rwa [back]) hidden] at enters
      cases enters
  · exact enters

end Overprint

namespace Lettering

variable {g : Grid} {c : Cell} {heading : Direction}

theorem isBlank_withoutLines (head : Arrow.at? g c = some heading) :
    (withoutLines g).isBlank c := by
  have listed : c ∈ (Arrow.all g).map Prod.fst :=
    List.mem_map.2 ⟨(c, heading), Arrow.mem_all.2 head, rfl⟩
  simp only [withoutLines, Grid.isBlank, Grid.get_overwrite, listed, Arrow.mem_of_at? head,
    and_self, if_true, ite_self]
  rfl

end Lettering

end Linework
