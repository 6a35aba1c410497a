import Linework.Grid.Fill
import Linework.Grid.Lines

/-! A drawing at three times its resolution.

Each cell becomes a square of nine, inked after the cell's role: a bar, an angle, a cross. Lines
that only touch at their corners or lie side by side then no longer touch, and an area between lines
is an area of blanks.
-/

set_option autoImplicit false

namespace Linework

namespace Ink

def mark : Char := '*'

def scale : Nat := 3

def arms (sides : List Direction) : Square Bool where
  northWest := false
  north := sides.contains .north
  northEast := false
  west := sides.contains .west
  center := true
  east := sides.contains .east
  southWest := false
  south := sides.contains .south
  southEast := false

/-- The ink of a role. A crossing shows all four arms, a star is solid, and a stub shows nothing. -/
def ofRole? : Role → Option (Square Bool)
  | .junction j => some (arms j.arms)
  | .corner c => some (arms c.turn.arms)
  | .line a => some (arms a.arms)
  | .crossing _ => some (arms Direction.all)
  | .star => some ⟨true, true, true, true, true, true, true, true, true⟩
  | .stub => none

/-- The fine cell at an offset from the middle of the square that stands for `c`. -/
def place (c : Cell) (dx dy : Int) : Cell :=
  ⟨c.x * scale + 1 + dx, c.y * scale + 1 + dy⟩

def draw (canvas : Grid) (c : Cell) (ink : Square Bool) : Grid :=
  ink.entries.foldl
    (fun acc (dx, dy, inked) => if inked then acc.set (place c dx dy) mark else acc) canvas

/-- The ink of the given cells. Their roles come from the whole drawing, so that a cell keeps its
role when its neighbors are left out. -/
def render (g : Grid) (cells : CellSet) : Grid :=
  cells.toList.foldl
    (fun canvas c =>
      match (g.role? c).bind ofRole? with
      | none => canvas
      | some ink => draw canvas c ink)
    (Grid.blank (g.width * scale) (g.height * scale))

def takePiece (state : Grid × List CellSet) (c : Cell) : Except Grid.Fault (Grid × List CellSet) :=
  if state.1.get c == mark then do
    let (rest, piece) ← state.1.fill c Glyph.blank
    pure (rest, (CellSet.ofList piece).shrink scale :: state.2)
  else pure state

/-- The connected pieces of a canvas, each as the cells of the drawing that it lies in. -/
def pieces (canvas : Grid) : Except Grid.Fault (List CellSet) := do
  let (_, taken) ← canvas.cells.foldlM takePiece (canvas, [])
  pure taken.reverse

end Ink

end Linework
