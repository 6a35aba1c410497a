import Linework.Pattern

/-! What a cell contributes to a drawing, judged from the characters around it.

Several templates may fit one cell. `Window.role?` tries junctions, corners, lines, stubs,
crossings and stars in this order and takes the first that fits.
-/

set_option autoImplicit false

namespace Linework

inductive Axis where
  | horizontal
  | vertical
  deriving DecidableEq, Repr

def Axis.arms : Axis → List Direction
  | .horizontal => [.east, .west]
  | .vertical => [.north, .south]

/-- Where three or four lines meet. -/
inductive Junction where
  | cross
  /-- Lines on every side but one. -/
  | tee (missing : Direction)
  deriving DecidableEq, Repr

namespace Junction

def all : List Junction := [.cross, .tee .west, .tee .north, .tee .east, .tee .south]

def arms : Junction → List Direction
  | .cross => Direction.all
  | .tee missing => Direction.all.filter (· != missing)

end Junction

inductive Turn where
  | topLeft
  | topRight
  | bottomRight
  | bottomLeft
  deriving DecidableEq, Repr

namespace Turn

def all : List Turn := [.topLeft, .topRight, .bottomRight, .bottomLeft]

def arms : Turn → List Direction
  | .topLeft => [.south, .east]
  | .topRight => [.south, .west]
  | .bottomRight => [.north, .west]
  | .bottomLeft => [.north, .east]

end Turn

structure Corner where
  turn : Turn
  round : Bool
  deriving DecidableEq, Repr

inductive Role where
  | junction (j : Junction)
  | corner (c : Corner)
  | line (a : Axis)
  /-- A corner character with one line to it. -/
  | stub
  /-- A corner character with a line passing straight through. -/
  | crossing (a : Axis)
  /-- A star with a line to it or through it. -/
  | star
  deriving DecidableEq, Repr

namespace Pattern

open Slot

def junction : Junction → Pattern
  | .cross =>
    ⟨any, gate .south, any,
      gate .east, literal '+', gate .west,
      any, gate .north, any⟩
  | .tee .west =>
    ⟨any, gate .south, any,
      noGate .east, literal '+', gate .west,
      any, gate .north, any⟩
  | .tee .north =>
    ⟨any, noGate .south, any,
      gate .east, literal '+', gate .west,
      any, gate .north, any⟩
  | .tee .east =>
    ⟨any, gate .south, any,
      gate .east, literal '+', noGate .west,
      any, gate .north, any⟩
  | .tee .south =>
    ⟨any, gate .south, any,
      gate .east, literal '+', gate .west,
      any, noGate .north, any⟩

def sharpCorner : Turn → Pattern
  | .topLeft =>
    ⟨any, notVertical, any,
      any, literal '+', horizontalRun,
      any, verticalRun, any⟩
  | .topRight =>
    ⟨any, notVertical, any,
      horizontalRun, literal '+', any,
      any, verticalRun, any⟩
  | .bottomRight =>
    ⟨any, verticalRun, any,
      horizontalRun, literal '+', any,
      any, notVertical, any⟩
  | .bottomLeft =>
    ⟨any, verticalRun, any,
      any, literal '+', horizontalRun,
      any, notVertical, any⟩

def roundCorner : Turn → Pattern
  | .topLeft =>
    ⟨any, notVertical, any,
      any, literal '/', gate .west,
      any, gate .north, any⟩
  | .topRight =>
    ⟨any, notVertical, any,
      gate .east, literal '\\', any,
      any, gate .north, any⟩
  | .bottomRight =>
    ⟨any, gate .south, any,
      gate .east, literal '/', any,
      any, notVertical, any⟩
  | .bottomLeft =>
    ⟨any, gate .south, any,
      any, literal '\\', gate .west,
      any, notVertical, any⟩

/-- A corner character with one arm, which ends in the open or at a line across. -/
def stubs : List Pattern :=
  [⟨nonLine, verticalRun, nonLine,
      nonLine, literal '+', nonLine,
      any, nonLine, any⟩,
    ⟨nonLine, verticalRun, nonLine,
      nonLine, literal '+', nonLine,
      any, horizontal, any⟩,
    ⟨nonLine, nonLine, any,
      horizontalRun, literal '+', nonLine,
      nonLine, nonLine, any⟩,
    ⟨nonLine, nonLine, any,
      horizontalRun, literal '+', vertical,
      nonLine, nonLine, any⟩,
    ⟨any, nonLine, any,
      nonLine, literal '+', nonLine,
      nonLine, verticalRun, nonLine⟩,
    ⟨any, horizontal, any,
      nonLine, literal '+', nonLine,
      nonLine, verticalRun, nonLine⟩,
    ⟨any, nonLine, nonLine,
      nonLine, literal '+', horizontalRun,
      any, nonLine, nonLine⟩,
    ⟨any, nonLine, nonLine,
      vertical, literal '+', horizontalRun,
      any, nonLine, nonLine⟩]

def lineEnds : List Pattern :=
  [⟨any, any, any,
      horizontalRun, horizontal, nonLine,
      any, any, any⟩,
    ⟨any, any, any,
      horizontalRun, horizontal, vertical,
      any, any, any⟩,
    ⟨any, any, any,
      nonLine, horizontal, horizontalRun,
      any, any, any⟩,
    ⟨any, any, any,
      vertical, horizontal, horizontalRun,
      any, any, any⟩,
    ⟨any, verticalRun, any,
      any, vertical, any,
      any, nonLine, any⟩,
    ⟨any, verticalRun, any,
      any, vertical, any,
      any, horizontal, any⟩,
    ⟨any, nonLine, any,
      any, vertical, any,
      any, verticalRun, any⟩,
    ⟨any, horizontal, any,
      any, vertical, any,
      any, verticalRun, any⟩]

def crossing : Axis → Pattern
  | .horizontal =>
    ⟨any, any, any,
      horizontalRun, literal '+', horizontalRun,
      any, any, any⟩
  | .vertical =>
    ⟨any, verticalRun, any,
      any, literal '+', any,
      any, verticalRun, any⟩

def stars : List Pattern :=
  [⟨any, any, any,
      horizontalRun, literal '*', horizontalRun,
      any, any, any⟩,
    ⟨any, any, any,
      nonLine, literal '*', horizontalRun,
      any, any, any⟩,
    ⟨any, any, any,
      horizontalRun, literal '*', nonLine,
      any, any, any⟩,
    ⟨any, verticalRun, any,
      any, literal '*', any,
      any, verticalRun, any⟩,
    ⟨any, nonLine, any,
      any, literal '*', any,
      any, verticalRun, any⟩,
    ⟨any, verticalRun, any,
      any, literal '*', any,
      any, nonLine, any⟩]

end Pattern

namespace Window

def junction? (w : Window) : Option Junction :=
  Junction.all.find? fun j => (Pattern.junction j).accepts w

/-- The first turn that fits; drawn sharp or round, but sharp if both fit. -/
def corner? (w : Window) : Option Corner :=
  Turn.all.findSome? fun t =>
    if (Pattern.sharpCorner t).accepts w then some ⟨t, false⟩
    else if (Pattern.roundCorner t).accepts w then some ⟨t, true⟩
    else none

def line? (w : Window) : Option Axis :=
  if Glyph.isHorizontal w.center then some .horizontal
  else if Glyph.isVertical w.center then some .vertical
  else none

def isStub (w : Window) : Bool := Pattern.anyAccepts Pattern.stubs w

def crossing? (w : Window) : Option Axis :=
  if (Pattern.crossing .horizontal).accepts w then some .horizontal
  else if (Pattern.crossing .vertical).accepts w then some .vertical
  else none

def isStar (w : Window) : Bool := Pattern.anyAccepts Pattern.stars w

def isLineEnd (w : Window) : Bool := w.isStub || Pattern.anyAccepts Pattern.lineEnds w

def isVertex (w : Window) : Bool :=
  w.corner?.isSome || w.junction?.isSome || w.isLineEnd

/-- Whether the cell draws part of an outline. A corner character does so only where lines meet it. -/
def isInked (w : Window) : Bool :=
  if w.center == Glyph.outside then false
  else if Glyph.isCorner w.center then
    w.junction?.isSome || w.corner?.isSome || w.isStub || w.crossing?.isSome
  else Glyph.isStroke w.center

def role? (w : Window) : Option Role :=
  if Glyph.isBlank w.center then none
  else (w.junction?.map .junction)
    <|> (w.corner?.map .corner)
    <|> (w.line?.map .line)
    <|> (if w.isStub then some .stub else none)
    <|> (w.crossing?.map .crossing)
    <|> (if w.isStar then some .star else none)

end Window

end Linework
