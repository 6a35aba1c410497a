/-! Positions of a character grid and the four directions a line can run in.

Columns grow eastward and rows grow southward. A position carries no grid: it may lie anywhere,
also beyond every edge.
-/

set_option autoImplicit false

namespace Linework

inductive Direction where
  | north
  | east
  | south
  | west
  deriving DecidableEq, Repr

namespace Direction

def all : List Direction := [.north, .east, .south, .west]

def opposite : Direction → Direction
  | .north => .south
  | .east => .west
  | .south => .north
  | .west => .east

def isHorizontal : Direction → Bool
  | .east | .west => true
  | .north | .south => false

def dx : Direction → Int
  | .east => 1
  | .west => -1
  | .north | .south => 0

def dy : Direction → Int
  | .north => -1
  | .south => 1
  | .east | .west => 0

def name : Direction → String
  | .north => "north"
  | .east => "east"
  | .south => "south"
  | .west => "west"

theorem mem_all (d : Direction) : d ∈ all := by cases d <;> decide

@[simp] theorem opposite_opposite (d : Direction) : d.opposite.opposite = d := by cases d <;> rfl

@[simp] theorem dx_opposite (d : Direction) : d.opposite.dx = -d.dx := by cases d <;> rfl

@[simp] theorem dy_opposite (d : Direction) : d.opposite.dy = -d.dy := by cases d <;> rfl

end Direction

@[ext]
structure Cell where
  x : Int
  y : Int
  deriving DecidableEq, Repr

namespace Cell

def translate (c : Cell) (dx dy : Int) : Cell := ⟨c.x + dx, c.y + dy⟩

def step (c : Cell) (d : Direction) : Cell := c.translate d.dx d.dy

def north (c : Cell) : Cell := c.step .north
def south (c : Cell) : Cell := c.step .south
def east (c : Cell) : Cell := c.step .east
def west (c : Cell) : Cell := c.step .west
def northEast (c : Cell) : Cell := c.translate 1 (-1)
def northWest (c : Cell) : Cell := c.translate (-1) (-1)
def southEast (c : Cell) : Cell := c.translate 1 1
def southWest (c : Cell) : Cell := c.translate (-1) 1

def orthogonal (c : Cell) : List Cell := [c.north, c.south, c.east, c.west]

def surrounding (c : Cell) : List Cell :=
  [c.northWest, c.north, c.northEast, c.west, c.east, c.southWest, c.south, c.southEast]

def directionTo? (c other : Cell) : Option Direction :=
  Direction.all.find? fun d => c.step d == other

/-- The cell of a grid coarser by `factor` that covers this one. -/
def shrink (c : Cell) (factor : Int) : Cell := ⟨c.x / factor, c.y / factor⟩

def order (a b : Cell) : Ordering := (compare a.x b.x).then (compare a.y b.y)

def text (c : Cell) : String := s!"({c.x}, {c.y})"

@[simp] theorem translate_x (c : Cell) (dx dy : Int) : (c.translate dx dy).x = c.x + dx := rfl

@[simp] theorem translate_y (c : Cell) (dx dy : Int) : (c.translate dx dy).y = c.y + dy := rfl

@[simp] theorem step_x (c : Cell) (d : Direction) : (c.step d).x = c.x + d.dx := rfl

@[simp] theorem step_y (c : Cell) (d : Direction) : (c.step d).y = c.y + d.dy := rfl

@[simp] theorem step_step_opposite (c : Cell) (d : Direction) :
    (c.step d).step d.opposite = c := by
  ext
  · rw [step_x, step_x, Direction.dx_opposite, Int.add_neg_cancel_right]
  · rw [step_y, step_y, Direction.dy_opposite, Int.add_neg_cancel_right]

theorem step_injective (c : Cell) {d e : Direction} (h : c.step d = c.step e) : d = e := by
  have hx : d.dx = e.dx := Int.add_left_cancel (congrArg Cell.x h)
  have hy : d.dy = e.dy := Int.add_left_cancel (congrArg Cell.y h)
  revert hx hy
  cases d <;> cases e <;> decide

theorem mem_orthogonal {c n : Cell} : n ∈ c.orthogonal ↔ ∃ d, n = c.step d := by
  constructor
  · simp only [orthogonal, List.mem_cons, List.not_mem_nil, or_false]
    rintro (rfl | rfl | rfl | rfl)
    · exact ⟨.north, rfl⟩
    · exact ⟨.south, rfl⟩
    · exact ⟨.east, rfl⟩
    · exact ⟨.west, rfl⟩
  · rintro ⟨d, rfl⟩
    cases d <;> simp [orthogonal, north, south, east, west]

end Cell

end Linework
