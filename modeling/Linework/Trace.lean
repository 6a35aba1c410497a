import Linework.Diagram
import Linework.Outline
import Linework.Strand

/-! Strands and loops as shapes on the page. -/

set_option autoImplicit false

namespace Linework

/-- How the cells of a drawing go onto the page; `roundAll` rounds every corner. -/
structure Layout where
  cellSize : CellSize
  roundAll : Bool

inductive Traced where
  | simple (shape : Shape)
  | network (lines : List Shape)
  deriving DecidableEq

namespace Layout

def node (l : Layout) (v : Vertex) : Shape.Node := ⟨l.cellSize.center v.cell, v.round, v.heading⟩

/-- The corners of a loop in the order of a walk around it, and whether it is dashed. There is
nothing if the walk does not come back. -/
def loopVertices? (g : Grid) (roundAll : Bool) (s : CellSet) :
    Except Grid.Fault (Option (List Vertex × Bool)) :=
  let alone := g.isolate s
  match s.first? with
  | none => .ok none
  | some start =>
    if s.size < 2 then .ok none
    else
      match Circuit.walk alone start (Outline.patience s) with
      | .error fault => .error fault
      | .ok (.closed walked) =>
        let corners := (start :: walked).filter alone.isVertex
        .ok (some (corners.map (Vertex.ofCell alone roundAll),
          s.toList.any fun c => Glyph.isDashed (alone.get c)))
      | .ok _ => .ok none

def loop? (l : Layout) (g : Grid) (s : CellSet) : Except Grid.Fault (Option Shape) := do
  let found ← loopVertices? g l.roundAll s
  pure (found.map fun (vertices, dashed) =>
    { Shape.polygon (vertices.map l.node) with dashed := dashed })

def segment (l : Layout) (seg : Segment) : Shape :=
  { Shape.polyline (seg.vertices.map l.node) with dashed := seg.dashed }

def strand (l : Layout) (g : Grid) (s : CellSet) : Except Grid.Fault (List Shape) := do
  pure ((← Strand.trace g l.roundAll s).map l.segment)

def connect (l : Layout) (n : Shape.Node) : Option Beyond → Shape.Node
  | none => n
  | some (.arrowhead heading) => { n with heading := some heading }
  | some (.joint c) => { n with position := l.cellSize.center c }

def dash? (l : Layout) (g : Grid) (c : Cell) : Option Shape :=
  let size := l.cellSize
  let finish (p : Point) (d : Direction) : Shape.Node :=
    l.connect ⟨p, false, none⟩ (Beyond.of? g c d)
  match g.get c with
  | '-' =>
    some (Shape.polyline
      [finish ⟨size.minX c, size.midY c⟩ .west, finish ⟨size.maxX c, size.midY c⟩ .east])
  | '|' =>
    some (Shape.polyline
      [finish ⟨size.midX c, size.minY c⟩ .north, finish ⟨size.midX c, size.maxY c⟩ .south])
  | _ => none

/-- Draws a set of cells of a known form. A mixed set and one that no walk gets through give
nothing. -/
def trace (l : Layout) (g : Grid) (s : CellSet) : Outline.Form →
    Except Grid.Fault (Option Traced)
  | .loop => do pure ((← l.loop? g s).map .simple)
  | .strand =>
    if s.size = 1 then pure ((s.first?.bind (l.dash? g)).map .simple)
    else do
      let lines ← l.strand g s
      pure (if lines.isEmpty then none else some (.network lines))
  | .mixed => pure none

end Layout

end Linework
