import Linework.Diagram
import Linework.Lettering
import Linework.Page
import Linework.Reduction
import Linework.Trace

/-! From the text of a drawing to a diagram. -/

set_option autoImplicit false

namespace Linework

structure Reading where
  cellSize : CellSize
  tabSize : Nat
  roundCorners : Bool
  customTags : List String
  deriving DecidableEq

def Reading.standard : Reading := ⟨CellSize.standard, 8, false, []⟩

namespace Recognition

/-- Draws loops, then strands. A set that cannot be traced is left out. -/
def addTraced (layout : Layout) (g : Grid) (reduced : Reduction) (d : Diagram) : Diagram :=
  let sets := reduced.loops.map (fun s => (s, Outline.Form.loop))
    ++ reduced.strands.map fun s => (s, Outline.Form.strand)
  let traced := sets.filterMap fun (s, form) =>
    match layout.trace g s form with
    | .ok traced => traced
    | .error _ => none
  traced.foldl
    (fun d traced => match traced with
      | .simple shape => { d with shapes := d.shapes ++ [shape] }
      | .network lines => { d with networks := d.networks ++ [lines] }) d

def modifyAround (size : CellSize) (c : Cell) (f : Shape → Shape) (shapes : List Shape) :
    List Shape :=
  match Diagram.smallestAround? shapes (size.center c) with
  | some i => shapes.modify i f
  | none => shapes

def applyMarkup (size : CellSize) (m : Markup) (shapes : List Shape) : List Shape :=
  let colored := m.colors.foldl
    (fun shapes (c, color) => modifyAround size c (fun s => { s with fill := some color }) shapes)
    shapes
  m.tags.foldl
    (fun shapes (c, tag) =>
      modifyAround size c (fun s => { s with kind := Shape.Kind.ofTag tag }) shapes) colored

def shade (size : CellSize) (shapes : List Shape) (c : Caption) : Caption :=
  let fill := (Diagram.smallestAround? shapes (size.center c.cell)).bind fun i =>
    (shapes[i]?).bind (·.fill)
  if fill.any Color.isDark then { c with color := Color.white } else c

end Recognition

open Recognition in
/-- Recognizes the lines, the decorations and the words of a drawing. -/
def recognize (reading : Reading) (source : String) : Except Grid.Fault Diagram := do
  let size := reading.cellSize
  let page ← Page.load source.toList reading.tabSize
  let (lettered, markup) := Markup.strip page reading.customTags
  let (lines, marked) := Overprint.clear lettered
  let reduced := Reduction.ofOutlines lines (← Outline.all lines)
  let traced := addTraced ⟨size, reading.roundCorners⟩ lines reduced
    (Diagram.empty lines.width lines.height size)
  let shapes := applyMarkup size markup traced.shapes
    ++ (Arrow.all lines).map (fun (c, heading) => Decoration.arrowhead size c heading)
    ++ marked.toList.map (Decoration.pointMarker size)
  pure { traced with
    shapes := shapes
    -- Words are read where the lines were not yet opened.
    captions := (Lettering.captions lettered size).map (shade size shapes) }

end Linework
