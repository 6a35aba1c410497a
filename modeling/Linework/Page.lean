import Linework.Color
import Linework.Diagram
import Linework.Grid
import Linework.Grid.Lines
import Linework.Text

/-! The grid in which lines are looked for.

The text of a drawing becomes a grid with a margin. Colors and tags are taken out of it, and what is
written over a line gives way to the line.
-/

set_option autoImplicit false

namespace Linework.Page

def margin : Nat := 2

/-- What stands for an item mark of a list, so that it is not taken for a point on a line. -/
def bullet : Char := '\u2022'

def expandTabs (tab : Nat) (column : Nat) : List Char → List Char
  | [] => []
  | c :: rest =>
    if c = '\t' then
      let blanks := tab - column % tab
      List.replicate blanks Glyph.blank ++ expandTabs tab (column + blanks) rest
    else c :: expandTabs tab (column + 1) rest

def isItemMark (c : Char) : Bool := c == 'o' || c == '*'

def startsItem (c : Char) : Bool := !Text.isSpace c && !Text.isPunctuation c

/-- Replaces the mark of an item and the blank after it by a blank and a bullet. The mark has to be
first in the line or follow a blank, and the text of the item has to follow. -/
def setBullets (atStart : Bool) : List Char → List Char
  | mark :: ' ' :: c :: rest =>
    if atStart && isItemMark mark && startsItem c then
      Glyph.blank :: bullet :: setBullets false (c :: rest)
    else mark :: setBullets (mark == Glyph.blank) (' ' :: c :: rest)
  | c :: rest => c :: setBullets (c == Glyph.blank) rest
  | [] => []

def padTo (width : Nat) (line : List Char) : List Char :=
  line ++ List.replicate (width - line.length) Glyph.blank

/-- The lines of a text with their tabs expanded, up to the last that is not all white space. -/
def content (text : List Char) (tab : Nat) : List (List Char) :=
  let expanded := (Text.lines text).map (expandTabs (max tab 1) 0)
  (expanded.reverse.dropWhile fun line => line.all Text.isSpace).reverse

def load (text : List Char) (tab : Nat) : Except Grid.Fault Grid :=
  let lines := content text tab
  let width := lines.foldl (fun widest line => max widest line.length) 0
  let side := List.replicate margin Glyph.blank
  let blankRows := List.replicate margin (List.replicate (width + margin * 2) Glyph.blank)
  let rows := lines.map fun line => side ++ padTo width (setBullets true line) ++ side
  Grid.ofRows (blankRows ++ rows ++ blankRows)

end Linework.Page

/-! ### Colors and tags

A color is the letter `c` with the name of a preset or three hexadecimal digits after it; a tag is a
word in braces.
-/

namespace Linework

namespace Markup

inductive Token where
  | color (c : Color)
  | tag (name : String)
  deriving DecidableEq

def isTag (custom : List String) (name : String) : Bool :=
  (Shape.Kind.tags.lookup name).isSome || custom.contains name

def isCodeDigit (c : Char) : Bool := c.isDigit || ('A' ≤ c && c ≤ 'F')

def code? (cs : List Char) : Option (List Char) :=
  let head := cs.take 3
  if (Color.preset? (String.ofList head)).isSome || (head.length == 3 && head.all isCodeDigit) then
    some head
  else none

def color? : List Char → Option (Color × Nat)
  | 'c' :: rest => (code? rest).bind fun code =>
    (Color.ofCode? (String.ofList code)).map fun color => (color, code.length + 1)
  | _ => none

def isNameSign (c : Char) : Bool := c.isAlphanum || c == '_' || c == '-'

def tag? (custom : List String) : List Char → Option (String × Nat)
  | '{' :: rest =>
    let name := rest.takeWhile isNameSign
    let word := String.ofList name
    match rest.dropWhile isNameSign with
    | '}' :: _ => if !name.isEmpty && isTag custom word then some (word, name.length + 2) else none
    | _ => none
  | _ => none

def token? (custom : List String) (cs : List Char) : Option (Token × Nat) :=
  ((color? cs).map fun found => (.color found.1, found.2))
    <|> ((tag? custom cs).map fun found => (.tag found.1, found.2))

structure Found where
  cell : Cell
  token : Token
  length : Nat

/-- The tokens of a row from cell `c` on, of which the next `skip` characters are taken already. -/
def scan (custom : List String) (c : Cell) (skip : Nat) : List Char → List Found
  | [] => []
  | char :: rest =>
    match skip with
    | skip + 1 => scan custom c.east skip rest
    | 0 =>
      match token? custom (char :: rest) with
      | some (token, length) => ⟨c, token, length⟩ :: scan custom c.east (length - 1) rest
      | none => scan custom c.east 0 rest

def findAll (g : Grid) (custom : List String) : List Found :=
  (List.range g.height).flatMap fun (y : Nat) => scan custom ⟨0, y⟩ 0 (g.row y)

def Found.span (f : Found) : List Cell :=
  (List.range f.length).map fun (i : Nat) => f.cell.translate i 0

end Markup

structure Markup where
  colors : List (Cell × Color)
  tags : List (Cell × String)

namespace Markup

def ofFound (found : List Found) : Markup where
  colors := found.filterMap fun f => match f.token with
    | .color color => some (f.cell, color)
    | .tag _ => none
  tags := found.filterMap fun f => match f.token with
    | .tag name => some (f.cell, name)
    | .color _ => none

/-- Reads the tokens of a drawing and blanks the cells they cover. -/
def strip (g : Grid) (custom : List String) : Grid × Markup :=
  let found := findAll g custom
  (g.overwrite (found.flatMap Found.span) Glyph.blank, ofFound found)

end Markup

end Linework

/-! ### Characters over a line

A letter or a digit in the middle of a line hides a piece of it, and so does a star that marks a
point. Each pass decides for every cell before it changes any.
-/

namespace Linework.Overprint

def lineAlong? : Bool → Bool → Option Char
  | true, true => some '+'
  | true, false => some '-'
  | false, true => some '|'
  | false, false => none

/-- The line that a letter or a digit interrupts: it must go on at both sides. -/
def underLetter? (g : Grid) (c : Cell) : Option Char :=
  if Text.isAlphanumeric (g.get c) then
    lineAlong? (Glyph.isHorizontal (g.get c.west) && Glyph.isHorizontal (g.get c.east))
      (Glyph.isVertical (g.get c.north) && Glyph.isVertical (g.get c.south))
  else none

/-- The line that a star sits on: a straight piece of it must touch the star. -/
def underStar? (g : Grid) (c : Cell) : Option Char :=
  if Glyph.isStar (g.get c) && (g.window c).isStar then
    lineAlong? (Glyph.isHorizontal (g.get c.west) || Glyph.isHorizontal (g.get c.east))
      (Glyph.isVertical (g.get c.north) || Glyph.isVertical (g.get c.south))
  else none

def uncover (g : Grid) (under? : Grid → Cell → Option Char) : Grid :=
  (g.cells.filterMap fun c => (under? g c).map fun char => (c, char)).foldl
    (fun acc found => acc.set found.1 found.2) g

def clear (g : Grid) : Grid × CellSet :=
  let lettered := uncover g underLetter?
  (uncover lettered underStar?, lettered.select fun c => (underStar? lettered c).isSome)

end Linework.Overprint
