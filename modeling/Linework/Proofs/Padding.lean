import Linework.Proofs.LineCharacters
import Linework.Proofs.Region

/-! The edge of a grid is a blank margin.

What is read beyond the edge is no blank, and whoever asks for blanks is told so. Lines do not ask:
no template, no gate and no rule of continuation tells the two apart. So rows and columns of blanks
may be put around a drawing or taken off without a line taking another course.
-/

set_option autoImplicit false

namespace Linework

theorem Window.Alike.text {w v : Window} (alike : w.Alike v) : w.text = v.text := by
  have shown {a b : Char} (alike : Glyph.Alike a b) :
      (if a == Glyph.outside then Glyph.blank else a)
        = if b == Glyph.outside then Glyph.blank else b := by
    rcases alike with rfl | ⟨here, there⟩
    · rfl
    · rw [Glyph.isVoid, Bool.or_eq_true, beq_iff_eq, beq_iff_eq] at here there
      rcases here with rfl | rfl <;> rcases there with rfl | rfl <;> rfl
  simp only [Window.text, Square.rows, List.map_cons, List.map_nil, shown alike.northWest,
    shown alike.north, shown alike.northEast, shown alike.west, shown alike.center,
    shown alike.east, shown alike.southWest, shown alike.south, shown alike.southEast]

namespace Grid

variable {g h : Grid} {c : Cell} {dx dy : Int} {blocked : Option Cell} {fault : Fault}

theorem Moves.text_window (moves : h.Moves g dx dy) (c : Cell) :
    (h.window (c.translate dx dy)).text = (g.window c).text := (moves.window c).text

/-- A grid with rows and columns of blanks put around it, so many on each side. -/
def padded (g : Grid) (north east south west : Nat) : Grid :=
  tabulate (west + g.width + east) (north + g.height + south) fun c =>
    let inner := c.translate (-west) (-north)
    if inner ∈ g then g.get inner else Glyph.blank

variable {north east south west : Nat}

theorem mem_padded (mem : c ∈ g) : c.translate west north ∈ g.padded north east south west := by
  obtain ⟨⟨left, right⟩, top, bottom⟩ := mem_def.1 mem
  simp only [padded, tabulate, mem_def, Cell.translate_x, Cell.translate_y]
  omega

theorem get_padded (g : Grid) (c : Cell) :
    (g.padded north east south west).get (c.translate west north)
      = if c ∈ g then g.get c
        else if c.translate west north ∈ g.padded north east south west then Glyph.blank
        else Glyph.outside := by
  have home : (c.translate west north).translate (-west) (-north) = c := by ext <;> simp
  by_cases inside : c.translate west north ∈ g.padded north east south west
  · rw [if_pos inside]
    refine (get_tabulate inside).trans ?_
    simp only [home]
  · rw [get_of_not_mem inside, if_neg inside, if_neg (mt mem_padded inside)]

example : (padded ⟨2, 1, #['+', '-'], rfl⟩ 1 1 0 2).lines = ["     ", "  +- "] := by decide

theorem padded_moves (g : Grid) (north east south west : Nat) :
    (g.padded north east south west).Moves g west north := by
  intro c
  rw [Empty, Empty, get_padded]
  by_cases inside : c ∈ g
  · exact .inl (if_pos inside)
  · refine .inr ⟨?_, .inr (get_of_not_mem inside)⟩
    rw [if_neg inside]
    split
    · exact .inl rfl
    · exact .inr rfl

/-- No cell can tell whether its grid ends beside it or goes on with blanks: it has the same role,
draws or ends a line or becomes a vertex as before, and lines run on from it as before, whichever
way they came. Where they do not, the same window is reported. -/
theorem padded_reads_alike (g : Grid) (north east south west : Nat) (c : Cell)
    (blocked : Option Cell) :
    let h := g.padded north east south west
    let moved (n : Cell) : Cell := n.translate west north
    h.role? (moved c) = g.role? c ∧
      (h.isInked (moved c) = g.isInked c ∧ h.isLineEnd (moved c) = g.isLineEnd c ∧
        h.isVertex (moved c) = g.isVertex c) ∧
      h.follow (moved c) (blocked.map moved) = match g.follow c blocked with
        | .ok next => .ok (next.map moved)
        | .error _ => .error (.unclassifiable (moved c) (g.window c).text) := by
  intro h moved
  have moves : h.Moves g west north := g.padded_moves north east south west
  have echoes := moves.echoes
  refine ⟨echoes.role? c, ⟨echoes.isInked c, echoes.isLineEnd c, echoes.isVertex c⟩, ?_⟩
  cases followed : g.follow c blocked with
  | ok next => exact echoes.follow followed
  | error fault =>
    refine (echoes.follow_error followed).trans ?_
    rw [unclassifiable, moves.text_window]

end Grid

end Linework
