import Linework.Color
import Linework.Geometry
import Linework.Grid.Lines

/-! A whole diagram: polygons and polylines on the page, networks of lines, and captions. -/

set_option autoImplicit false

namespace Linework

namespace Shape

structure Node where
  position : Point
  round : Bool
  heading : Option Direction
  deriving DecidableEq

inductive Kind where
  | simple
  | arrowhead
  | pointMarker
  | document
  | storage
  | io
  | decision
  | manualOperation
  | trapezoid
  | ellipse
  | custom (name : String)
  deriving DecidableEq, Repr

namespace Kind

def tags : List (String × Kind) :=
  [("d", .document), ("s", .storage), ("io", .io), ("c", .decision), ("mo", .manualOperation),
    ("tr", .trapezoid), ("o", .ellipse)]

def ofTag (tag : String) : Kind := (tags.lookup tag).getD (.custom tag)

def name : Kind → String
  | .simple => "simple"
  | .arrowhead => "arrowhead"
  | .pointMarker => "point-marker"
  | .document => "document"
  | .storage => "storage"
  | .io => "io"
  | .decision => "decision"
  | .manualOperation => "manual-operation"
  | .trapezoid => "trapezoid"
  | .ellipse => "ellipse"
  | .custom name => name

def isDecoration : Kind → Bool
  | .arrowhead | .pointMarker => true
  | _ => false

end Kind

end Shape

structure Shape where
  nodes : List Shape.Node
  kind : Shape.Kind
  closed : Bool
  dashed : Bool
  fill : Option Color
  deriving DecidableEq

namespace Shape

def polygon (nodes : List Node) : Shape := ⟨nodes, .simple, true, false, none⟩

def polyline (nodes : List Node) : Shape := ⟨nodes, .simple, false, false, none⟩

def points (s : Shape) : List Point := s.nodes.map (·.position)

def bounds? (s : Shape) : Option Bounds := Bounds.ofPoints? s.points

def edges (s : Shape) : List (Point × Point) :=
  match s.points with
  | [] => []
  | first :: rest => (first :: rest).zip (rest ++ [first])

def hasInside (s : Shape) : Bool := s.closed && 3 ≤ s.nodes.length

def area (s : Shape) : Float32 :=
  if s.hasInside then
    (s.edges.foldl (fun sum e => sum + (e.1.x * e.2.y - e.2.x * e.1.y)) (0 : Float32)).abs / 2
  else 0

def contains (s : Shape) (p : Point) : Bool :=
  let crosses (edge : Point × Point) : Bool :=
    let (a, b) := edge
    decide (a.y > p.y) != decide (b.y > p.y)
      && decide (p.x < a.x + (p.y - a.y) / (b.y - a.y) * (b.x - a.x))
  s.hasInside && s.edges.foldl (fun inside edge => inside != crosses edge) false

/-- Whether the shape may take a color or a tag. -/
def isFillable (s : Shape) : Bool := s.closed && !s.kind.isDecoration

end Shape

namespace Decoration

def arrowhead (size : CellSize) (c : Cell) (heading : Direction) : Shape :=
  let corners : List Point := match heading with
    | .east => [⟨size.minX c, size.minY c⟩, ⟨size.maxX c, size.midY c⟩, ⟨size.minX c, size.maxY c⟩]
    | .west => [⟨size.maxX c, size.minY c⟩, ⟨size.minX c, size.midY c⟩, ⟨size.maxX c, size.maxY c⟩]
    | .north => [⟨size.minX c, size.maxY c⟩, ⟨size.midX c, size.minY c⟩, ⟨size.maxX c, size.maxY c⟩]
    | .south => [⟨size.minX c, size.minY c⟩, ⟨size.midX c, size.maxY c⟩, ⟨size.maxX c, size.minY c⟩]
  { Shape.polygon (corners.map fun p => ⟨p, false, none⟩) with
    kind := .arrowhead
    fill := some Color.black }

def pointMarker (size : CellSize) (c : Cell) : Shape :=
  { Shape.polygon [⟨size.center c, false, none⟩] with
    kind := .pointMarker
    fill := some Color.white }

end Decoration

inductive Caption.Align where
  | left
  | right
  deriving DecidableEq, Repr

structure Caption where
  text : String
  cell : Cell
  bounds : Bounds
  color : Color
  align : Caption.Align
  deriving DecidableEq

/-- Shapes lie in the order in which they came. The lines of a network are only drawn and have no
inside, so networks are kept apart. -/
structure Diagram where
  columns : Nat
  rows : Nat
  cellSize : CellSize
  shapes : List Shape
  networks : List (List Shape)
  captions : List Caption
  deriving DecidableEq

namespace Diagram

def empty (columns rows : Nat) (cellSize : CellSize) : Diagram := ⟨columns, rows, cellSize, [], [], []⟩

def width (d : Diagram) : Float32 := Float32.ofNat d.columns * d.cellSize.width

def height (d : Diagram) : Float32 := Float32.ofNat d.rows * d.cellSize.height

/-- The place of the smallest shape around a point, of equal ones the first. -/
def smallestAround? (shapes : List Shape) (p : Point) : Option Nat :=
  let around := shapes.zipIdx.filter fun s => s.1.isFillable && s.1.contains p
  let smallest := around.foldl
    (fun (best : Option (Float32 × Nat)) s =>
      let area := s.1.area
      if best.any fun b => !(area < b.1) then best else some (area, s.2)) none
  smallest.map (·.2)

end Diagram

end Linework
