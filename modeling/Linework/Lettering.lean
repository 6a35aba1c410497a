import Linework.Grid.Lines
import Linework.Diagram
import Linework.Text

/-! The words of a drawing, apart from its lines. -/

set_option autoImplicit false

namespace Linework.Lettering

/-- Splits a row at double blanks into the runs between them. The run at hand is given with its
first column and its characters so far, latest first; `afterBlank` tells whether a blank came just
before. -/
def runsFrom (x : Nat) (run : Option (Nat × List Char)) (afterBlank : Bool) :
    List Char → List (Nat × List Char)
  | [] => run.toList
  | c :: rest =>
    if Glyph.isBlank c then
      if afterBlank then run.toList ++ runsFrom (x + 1) none true rest
      else runsFrom (x + 1) (run.map fun (start, text) => (start, c :: text)) true rest
    else
      let (start, text) := run.getD (x, [])
      runsFrom (x + 1) (some (start, c :: text)) false rest

def runs (row : List Char) : List (Nat × String) :=
  (runsFrom 0 none false row).map fun (start, text) =>
    (start, String.ofList (text.dropWhile Text.isSpace).reverse)

def strings (g : Grid) : List (Cell × String) :=
  (List.range g.height).flatMap fun (y : Nat) =>
    (runs (g.row y)).map fun (x, text) => (⟨x, y⟩, text)

def isOpen (g : Grid) (c : Cell) : Bool := c ∉ g || g.isBlank c

def isStart (g : Grid) (c : Cell) : Bool := !isOpen g c && isOpen g c.west

def isEnd (g : Grid) (c : Cell) : Bool := !isOpen g c && isOpen g c.east

def othersInColumn (g : Grid) (test : Grid → Cell → Bool) (c : Cell) : Nat :=
  if test g c then
    ((List.range g.height).map fun (y : Nat) => (⟨c.x, y⟩ : Cell)).countP
      fun other => other != c && test g other
  else 0

/-- Text is set to the right if more strings end below or above its end than begin below or above
its start. -/
def alignment (g : Grid) (start last : Cell) : Caption.Align :=
  let ends := othersInColumn g isEnd last
  if ends > 0 ∧ othersInColumn g isStart start < ends then .right else .left

def caption (g : Grid) (size : CellSize) (start : Cell) (text : String) : Caption :=
  let last := start.translate (text.length - 1 : Int) 0
  { text := text
    cell := start
    bounds := Bounds.ofCorners ⟨size.minX start, size.minY start⟩ ⟨size.maxX last, size.maxY last⟩
    color := Color.black
    align := alignment g start last }

/-- What is left of a grid without its arrowheads and its lines. -/
def withoutLines (g : Grid) : Grid :=
  let headless := g.overwrite ((Arrow.all g).map Prod.fst) Glyph.blank
  headless.overwrite headless.inked.toList Glyph.blank

def captions (g : Grid) (size : CellSize) : List Caption :=
  let words := withoutLines g
  (strings words).map fun (start, text) => caption words size start text

end Linework.Lettering
