import Linework.Grid
import Linework.Role

/-! The lines of a grid.

The role of a cell is judged in the window around it, and says where the line through the cell goes on.
A walk goes from each cell to the only continuation that does not lead back, and stops where there is
none, or more than one. An arrowhead is a character at the end of a line that shows where it points.
-/

set_option autoImplicit false

namespace Linework.Grid

def window (g : Grid) (c : Cell) : Window := Square.tabulate fun dx dy => g.get (c.translate dx dy)

def role? (g : Grid) (c : Cell) : Option Role := (g.window c).role?

def isVertex (g : Grid) (c : Cell) : Bool := (g.window c).isVertex

def isLineEnd (g : Grid) (c : Cell) : Bool := (g.window c).isLineEnd

def isInked (g : Grid) (c : Cell) : Bool := (g.window c).isInked

def isRoundCorner (g : Grid) (c : Cell) : Bool := (g.window c).corner?.any (·.round)

def opensAt (g : Grid) (c : Cell) (gate : Gate) : Bool :=
  g.get c != Glyph.outside && gate.admits (g.get c)

def inked (g : Grid) : CellSet := g.select g.isInked

def unclassifiable (g : Grid) (c : Cell) : Fault := .unclassifiable c (g.window c).text

def openNeighbors (g : Grid) (c : Cell) : List Cell :=
  ([.north, .south, .east, .west] : List Direction).filterMap fun d =>
    if g.opensAt (c.step d) (.ofDirection d.opposite) then some (c.step d) else none

/-- The cells to which the line through `c` runs on, if `c` has a role that says so. A star has a
role but no rule. -/
def continuations? (g : Grid) (c : Cell) : Option (List Cell) :=
  match g.role? c with
  | some (.junction _) => some (g.openNeighbors c)
  | some (.corner corner) => some (corner.turn.arms.map c.step)
  | some (.line axis) => some ((axis.arms.map c.step).filter g.isInked)
  -- The first neighbor with ink, be it along the arm of the stub or not.
  | some .stub => some ([c.east, c.west, c.north, c.south].find? g.isInked).toList
  | some (.crossing axis) => some (axis.arms.map c.step)
  | some .star => none
  | none => none

def follow (g : Grid) (c : Cell) (blocked : Option Cell) : Except Fault (List Cell) :=
  match g.continuations? c with
  | none => .error (g.unclassifiable c)
  | some next => .ok (next.filter fun n => blocked != some n)

end Linework.Grid

namespace Linework.Circuit

/-- How a walk ended; the cells walked come in order, without the start. -/
inductive Ending where
  | closed (walked : List Cell)
  | deadEnd
  | branch
  | unfinished
  deriving DecidableEq, Repr

/-- Walks on from `current`, reached from `previous`, for at most `limit` steps. -/
def walkFrom (g : Grid) (start : Cell) (limit : Nat) (previous current : Cell)
    (walked : List Cell) : Except Grid.Fault Ending :=
  match limit with
  | 0 => .ok .unfinished
  | limit + 1 =>
    if current = start then .ok (.closed walked.reverse)
    else
      match g.follow current (some previous) with
      | .error fault => .error fault
      | .ok [] => .ok .deadEnd
      | .ok [next] => walkFrom g start limit current next (current :: walked)
      | .ok _ => .ok .branch

def walk (g : Grid) (start : Cell) (limit : Nat) : Except Grid.Fault Ending :=
  match g.follow start none with
  | .error fault => .error fault
  | .ok [] => .ok .deadEnd
  -- The start may have branches: only the cells come to are asked for theirs.
  | .ok (first :: _) => walkFrom g start limit start first []

end Linework.Circuit

namespace Linework.Arrow

def heading? : Char → Option Direction
  | '>' => some .east
  | '<' => some .west
  | '^' => some .north
  | 'v' | 'V' => some .south
  | _ => none

def shaft (d : Direction) (c : Char) : Bool :=
  if d.isHorizontal then Glyph.runsHorizontally c else Glyph.runsVertically c

/-- The heading of the arrowhead at a cell. The character counts as one only if a line comes in from
behind. -/
def at? (g : Grid) (c : Cell) : Option Direction :=
  (heading? (g.get c)).filter fun d => shaft d (g.get (c.step d.opposite))

def all (g : Grid) : List (Cell × Direction) :=
  g.cells.filterMap fun c => (at? g c).map fun d => (c, d)

end Linework.Arrow
