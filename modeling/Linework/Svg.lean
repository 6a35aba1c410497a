import Linework.Color
import Linework.Diagram
import Linework.Numeral

/-! Diagrams as vector graphics: documents of nested elements, and their text. -/

set_option autoImplicit false

namespace Linework.Svg

inductive Node where
  | text (content : String)
  | element (name : String) (attributes : List (String × String)) (children : List Node)

def escapeSign (c : Char) : List Char :=
  match c with
  | '&' => "&amp;".toList
  | '<' => "&lt;".toList
  | '>' => "&gt;".toList
  | _ => [c]

def escapeValueSign (c : Char) : List Char :=
  match c with
  | '"' => "&quot;".toList
  | '\'' => "&apos;".toList
  | _ => escapeSign c

def escape (s : String) : String := String.ofList (s.toList.flatMap escapeSign)

def escapeValue (s : String) : String := String.ofList (s.toList.flatMap escapeValueSign)

def attributesText (attributes : List (String × String)) : String :=
  let sorted := attributes.mergeSort fun a b => decide (a.1 ≤ b.1)
  String.join (sorted.map fun a => " " ++ a.1 ++ "=\"" ++ escapeValue a.2 ++ "\"")

mutual

def Node.render : Node → String
  | .text content => escape content
  | .element name attributes [] => "<" ++ name ++ attributesText attributes ++ "/>"
  | .element name attributes (child :: children) =>
    "<" ++ name ++ attributesText attributes ++ ">" ++ renderLines (child :: children)
      ++ "\n</" ++ name ++ ">"

def renderLines : List Node → String
  | [] => ""
  | node :: rest => "\n" ++ node.render ++ renderLines rest

end

structure Pen where
  background : Color
  stroke : Stroke
  font : String

/-- Lines through the nodes. A round node turns into a curve that begins and ends `radius` away from
it on both of its edges; the ends of an open line are never round. -/
def pathData (s : Shape) (radius : Float32) : String :=
  let nodes := s.nodes
  let count := nodes.length
  let place (p : Point) : String := decimalText p.x ++ " " ++ decimalText p.y
  let command (i : Nat) : String := if i = 0 then "M " else "L "
  let position (i : Nat) : Point := ((nodes[i % count]?).map (·.position)).getD ⟨0, 0⟩
  let part (node : Shape.Node) (i : Nat) : String :=
    let isEnd := !s.closed && (i == 0 || i + 1 == count)
    if !node.round || isEnd || count < 3 || radius ≤ 0 then command i ++ place node.position
    else
      let before := node.position.toward (position (i + count - 1)) radius
      let after := node.position.toward (position (i + 1)) radius
      command i ++ place before ++ " Q " ++ place node.position ++ " " ++ place after
  let parts := nodes.zipIdx.map fun (node, i) => part node i
  " ".intercalate (if s.closed then parts ++ ["Z"] else parts)

def rhombusData (r : Bounds) : String :=
  let x := decimalText r.center.x
  let y := decimalText r.center.y
  " ".intercalate ["M", x, decimalText r.minY, "L", decimalText r.maxX, y, "L", x,
    decimalText r.maxY, "L", decimalText r.minX, y, "Z"]

def strokeAttributes (pen : Pen) (dashed : Bool) : List (String × String) :=
  [("stroke", pen.stroke.color.text), ("stroke-width", decimalText pen.stroke.width)]
    ++ (Stroke.dashes? dashed).toList.map fun dashes => ("stroke-dasharray", dashes)

/-- An outline or a line. Ellipses and decisions fill the rectangle around their nodes. -/
def outline (pen : Pen) (radius : Float32) (s : Shape) : Node :=
  let fill := if s.closed then (s.fill.getD pen.background).text else "none"
  let around := s.bounds?.getD ⟨0, 0, 0, 0⟩
  let path (data : String) : Node :=
    .element "path"
      ([("d", data), ("fill", fill), ("class", s.kind.name)] ++ strokeAttributes pen s.dashed) []
  match s.kind, s.closed with
  | .ellipse, true =>
    .element "ellipse"
      ([("cx", decimalText around.center.x), ("cy", decimalText around.center.y),
        ("rx", decimalText (around.width / 2)), ("ry", decimalText (around.height / 2)),
        ("fill", fill)] ++ strokeAttributes pen s.dashed) []
  | .decision, true => path (rhombusData around)
  | _, _ => path (pathData s radius)

def arrowhead (pen : Pen) (s : Shape) : Node :=
  .element "path" [("d", pathData s 0), ("fill", pen.stroke.color.text), ("stroke", "none")] []

def pointMarker (pen : Pen) (radius : Float32) (s : Shape) : Node :=
  let center := (s.points.head?).getD ⟨0, 0⟩
  .element "circle"
    ([("cx", decimalText center.x), ("cy", decimalText center.y), ("r", decimalText radius),
      ("fill", (s.fill.getD pen.background).text)] ++ strokeAttributes pen pen.stroke.dashed) []

def decoration? (pen : Pen) (radius : Float32) (s : Shape) : Option Node :=
  match s.kind with
  | .arrowhead => some (arrowhead pen s)
  | .pointMarker => some (pointMarker pen radius s)
  | _ => none

def caption (pen : Pen) (size : Float32) (c : Caption) : Node :=
  let (x, anchor) := match c.align with
    | .left => (c.bounds.minX, "start")
    | .right => (c.bounds.maxX, "end")
  .element "text"
    [("x", decimalText x), ("text-anchor", anchor), ("y", decimalText c.bounds.center.y),
      ("dominant-baseline", "central"), ("font-family", pen.font), ("font-size", decimalText size),
      ("fill", c.color.text), ("xml:space", "preserve")]
    [.text c.text]

/-- Larger outlines first, so that what is filled does not hide what lies in it. An area is never
negative, so its bits are ordered as it is. -/
def byArea (shapes : List Shape) : List Shape :=
  (shapes.map fun s => (s.area.toBits.toNat, s)).mergeSort (fun a b => decide (b.1 ≤ a.1))
    |>.map Prod.snd

def document (pen : Pen) (d : Diagram) : Node :=
  let radius := lesser d.cellSize.width d.cellSize.height / 2
  let width := decimalText d.width
  let height := decimalText d.height
  let background : Node := .element "rect"
    [("width", "100%"), ("height", "100%"), ("fill", pen.background.text)] []
  let outlines := (byArea (d.shapes.filter fun s => !s.kind.isDecoration)).map (outline pen radius)
  let networks := d.networks.map fun lines =>
    Node.element "g" [("class", "line")] (lines.map (outline pen radius))
  let decorations := d.shapes.filterMap (decoration? pen (radius / 2))
  let captions := d.captions.map (caption pen d.cellSize.height)
  .element "svg"
    [("viewBox", "0 0 " ++ width ++ " " ++ height), ("width", width), ("height", height),
      ("xmlns", "http://www.w3.org/2000/svg")]
    (background :: outlines ++ networks ++ decorations ++ captions)

end Linework.Svg
