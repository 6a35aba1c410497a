import Linework.Cell

/-! Points, rectangles and the size of a cell on the page.

Lengths are single precision numbers, and every formula rounds after each operation in the order
written. The origin is the outer corner of the first cell; ordinates grow downward.
-/

set_option autoImplicit false

namespace Linework

/-- The lesser of two numbers; of a number and none, the number. -/
def lesser (a b : Float32) : Float32 := if a.isNaN then b else if b < a then b else a

def greater (a b : Float32) : Float32 := if a.isNaN then b else if a < b then b else a

structure Point where
  x : Float32
  y : Float32
  deriving DecidableEq

namespace Point

def add (a b : Point) : Point := ⟨a.x + b.x, a.y + b.y⟩

def sub (a b : Point) : Point := ⟨a.x - b.x, a.y - b.y⟩

def midpoint (a b : Point) : Point := ⟨(a.x + b.x) / 2, (a.y + b.y) / 2⟩

/-- Computed in double precision; infinite if the points are infinitely apart along an axis. -/
def distance (a b : Point) : Float32 :=
  let dx := a.x - b.x
  let dy := a.y - b.y
  if dx.isInf || dy.isInf then 1 / 0
  else (dx.toFloat * dx.toFloat + dy.toFloat * dy.toFloat).sqrt.toFloat32

/-- The point `amount` away from `a` in the direction of `target`, but not beyond it. -/
def toward (a target : Point) (amount : Float32) : Point :=
  let distance := a.distance target
  if distance ≤ amount || distance == 0 then target
  else
    let ratio := amount / distance
    ⟨a.x + (target.x - a.x) * ratio, a.y + (target.y - a.y) * ratio⟩

end Point

structure Bounds where
  minX : Float32
  minY : Float32
  maxX : Float32
  maxY : Float32
  deriving DecidableEq

namespace Bounds

def ofCorners (a b : Point) : Bounds :=
  ⟨lesser a.x b.x, lesser a.y b.y, greater a.x b.x, greater a.y b.y⟩

def stretch (r : Bounds) (p : Point) : Bounds :=
  ⟨lesser r.minX p.x, lesser r.minY p.y, greater r.maxX p.x, greater r.maxY p.y⟩

def ofPoints? : List Point → Option Bounds
  | [] => none
  | p :: rest => some (rest.foldl stretch (ofCorners p p))

def width (r : Bounds) : Float32 := r.maxX - r.minX

def height (r : Bounds) : Float32 := r.maxY - r.minY

def center (r : Bounds) : Point := ⟨(r.minX + r.maxX) / 2, (r.minY + r.maxY) / 2⟩

/-- Rectangles that only touch overlap as well. -/
def overlaps (r s : Bounds) : Bool :=
  r.minX ≤ s.maxX && s.minX ≤ r.maxX && r.minY ≤ s.maxY && s.minY ≤ r.maxY

end Bounds

structure CellSize where
  width : Float32
  height : Float32
  deriving DecidableEq

namespace CellSize

def standard : CellSize := ⟨10, 14⟩

def minX (s : CellSize) (c : Cell) : Float32 := Float32.ofInt c.x * s.width

def midX (s : CellSize) (c : Cell) : Float32 := s.minX c + s.width / 2

def maxX (s : CellSize) (c : Cell) : Float32 := s.minX c + s.width

def minY (s : CellSize) (c : Cell) : Float32 := Float32.ofInt c.y * s.height

def midY (s : CellSize) (c : Cell) : Float32 := s.minY c + s.height / 2

def maxY (s : CellSize) (c : Cell) : Float32 := s.minY c + s.height

def center (s : CellSize) (c : Cell) : Point := ⟨s.midX c, s.midY c⟩

def bounds (s : CellSize) (c : Cell) : Bounds :=
  Bounds.ofCorners ⟨s.minX c, s.minY c⟩ ⟨s.maxX c, s.maxY c⟩

/-- The cell around a point. A coordinate out of reach goes to the last cell on its side, and one
that is no number to the first of the grid. -/
def cellAt (s : CellSize) (p : Point) : Cell :=
  ⟨(p.x / s.width).floor.toInt32.toInt, (p.y / s.height).floor.toInt32.toInt⟩

end CellSize

end Linework
