/-! The characters that draw lines, and the three by three squares in which they are looked at. -/

set_option autoImplicit false

namespace Linework.Glyph

def blank : Char := ' '

/-- What a position beyond the grid reads as: no blank, and part of no line. -/
def outside : Char := '\u0000'

def isBlank (c : Char) : Bool := c == blank

/-- Draws part of an outline wherever it stands. -/
def isStroke (c : Char) : Bool :=
  match c with
  | '/' | '\\' | '|' | '-' | '*' | '=' | ':' => true
  | _ => false

def isHorizontal (c : Char) : Bool := c == '-' || c == '='

def isVertical (c : Char) : Bool := c == '|' || c == ':'

def isLine (c : Char) : Bool := isHorizontal c || isVertical c

def isArc (c : Char) : Bool := c == '/' || c == '\\'

def isCorner (c : Char) : Bool := c == '+' || isArc c

def isStar (c : Char) : Bool := c == '*'

/-- Makes the whole line it stands on dashed. -/
def isDashed (c : Char) : Bool := c == ':' || c == '~' || c == '='

def isArrow (c : Char) : Bool :=
  match c with
  | '<' | '>' | '^' | 'v' | 'V' => true
  | _ => false

def runsVertically (c : Char) : Bool := isVertical c || isCorner c

def runsHorizontally (c : Char) : Bool := isHorizontal c || isCorner c

def isLineArt (c : Char) : Bool := isLine c || isCorner c

end Linework.Glyph

namespace Linework

@[ext]
structure Square (α : Type) where
  northWest : α
  north : α
  northEast : α
  west : α
  center : α
  east : α
  southWest : α
  south : α
  southEast : α
  deriving DecidableEq, Repr

namespace Square

variable {α β : Type}

def rows (s : Square α) : List (List α) :=
  [[s.northWest, s.north, s.northEast], [s.west, s.center, s.east],
    [s.southWest, s.south, s.southEast]]

def tabulate (f : Int → Int → α) : Square α where
  northWest := f (-1) (-1)
  north := f 0 (-1)
  northEast := f 1 (-1)
  west := f (-1) 0
  center := f 0 0
  east := f 1 0
  southWest := f (-1) 1
  south := f 0 1
  southEast := f 1 1

def entries (s : Square α) : List (Int × Int × α) :=
  [(-1, -1, s.northWest), (0, -1, s.north), (1, -1, s.northEast),
    (-1, 0, s.west), (0, 0, s.center), (1, 0, s.east),
    (-1, 1, s.southWest), (0, 1, s.south), (1, 1, s.southEast)]

def accepts (test : α → β → Bool) (s : Square α) (t : Square β) : Bool :=
  test s.northWest t.northWest && test s.north t.north && test s.northEast t.northEast
    && test s.west t.west && test s.center t.center && test s.east t.east
    && test s.southWest t.southWest && test s.south t.south && test s.southEast t.southEast

end Square

abbrev Window := Square Char

namespace Window

def ofRows (top middle bottom : List Char) : Window :=
  let pick (row : List Char) (i : Nat) : Char := row.getD i Glyph.outside
  ⟨pick top 0, pick top 1, pick top 2, pick middle 0, pick middle 1, pick middle 2,
    pick bottom 0, pick bottom 1, pick bottom 2⟩

/-- Three lines of text, in which what lies outside shows as blank. -/
def text (w : Window) : String :=
  let show1 (c : Char) : Char := if c == Glyph.outside then Glyph.blank else c
  "\n".intercalate (w.rows.map fun row => String.ofList (row.map show1))

end Window

end Linework
