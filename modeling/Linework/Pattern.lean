import Linework.Cell
import Linework.Window

/-! A small language of templates for the characters around a cell.

A template gives each of the nine places a condition. It has a written form, three rows of codes
with one code for each place, and `Pattern.parse` reads that form.
-/

set_option autoImplicit false

namespace Linework

/-- A side or a corner of a cell, through which a line comes in. -/
inductive Gate where
  | northWest
  | north
  | northEast
  | east
  | southEast
  | south
  | southWest
  | west
  deriving DecidableEq, Repr

namespace Gate

def all : List Gate :=
  [.northWest, .north, .northEast, .east, .southEast, .south, .southWest, .west]

def ofDirection : Direction → Gate
  | .north => .north
  | .east => .east
  | .south => .south
  | .west => .west

def admits (g : Gate) (c : Char) : Bool :=
  match g with
  | .northWest | .southEast => c == '\\'
  | .northEast | .southWest => c == '/'
  | .north | .south => Glyph.runsVertically c
  | .east | .west => Glyph.runsHorizontally c

/-- Gates are numbered from one, in the order of `Gate.all`. -/
def ofDigit? : Char → Option Gate
  | '1' => some .northWest
  | '2' => some .north
  | '3' => some .northEast
  | '4' => some .east
  | '5' => some .southEast
  | '6' => some .south
  | '7' => some .southWest
  | '8' => some .west
  | _ => none

end Gate

inductive Slot where
  | any
  | literal (c : Char)
  | horizontal
  | vertical
  | notVertical
  | nonLine
  | verticalRun
  | horizontalRun
  | gate (g : Gate)
  | noGate (g : Gate)
  deriving DecidableEq, Repr

namespace Slot

def accepts (s : Slot) (c : Char) : Bool :=
  match s with
  | .any => true
  | .literal expected => c == expected
  | .horizontal => Glyph.isHorizontal c
  | .vertical => Glyph.isVertical c
  | .notVertical => !Glyph.isVertical c
  | .nonLine => !Glyph.isLineArt c
  | .verticalRun => Glyph.runsVertically c
  | .horizontalRun => Glyph.runsHorizontally c
  | .gate g => g.admits c
  | .noGate g => !g.admits c

def ofCode? (code : Char) : Option Slot :=
  match code with
  | '.' | '~' => some .any
  | '[' => some .notVertical
  | '!' => some .nonLine
  | '^' => some .verticalRun
  | '(' => some .horizontalRun
  | '-' => some .horizontal
  | '|' => some .vertical
  | '+' | '*' | '/' | '\\' => some (.literal code)
  | _ => (Gate.ofDigit? code).map .gate

end Slot

abbrev Pattern := Square Slot

namespace Pattern

def accepts (p : Pattern) (w : Window) : Bool := Square.accepts Slot.accepts p w

def anyAccepts (ps : List Pattern) (w : Window) : Bool := ps.any fun p => p.accepts w

inductive Fault where
  | slotCount
  | unknownCode
  | gateNumber
  /-- A row stops after the sign that announces a gate number. -/
  | missingGate (length : Nat)
  deriving DecidableEq, Repr

def Fault.message : Fault → String
  | .slotCount => "pattern rows hold three slots"
  | .unknownCode => "unknown pattern slot code"
  | .gateNumber => "entry points are numbered 1 to 8"
  | .missingGate length =>
    s!"index out of bounds: the len is {length} but the index is {length}"

/-- Reads the codes of one row from position `start`, where `room` more slots may follow. -/
def parseSlots (start room : Nat) : List Char → Except Fault (List Slot)
  | [] => if room = 0 then .ok [] else .error .slotCount
  | '%' :: [] => if room = 0 then .error .slotCount else .error (.missingGate (start + 1))
  | '%' :: digit :: rest =>
    if room = 0 then .error .slotCount
    else match Gate.ofDigit? digit with
      | none => .error .gateNumber
      | some g => (parseSlots (start + 2) (room - 1) rest).map (.noGate g :: ·)
  | code :: rest =>
    if room = 0 then .error .slotCount
    else match Slot.ofCode? code with
      | none => .error .unknownCode
      | some s => (parseSlots (start + 1) (room - 1) rest).map (s :: ·)

def parseRow (codes : List Char) : Except Fault (Slot × Slot × Slot) := do
  match ← parseSlots 0 3 codes with
  | [a, b, c] => pure (a, b, c)
  | _ => throw .slotCount

def parse (top middle bottom : List Char) : Except Fault Pattern := do
  let (a, b, c) ← parseRow top
  let (d, e, f) ← parseRow middle
  let (g, h, i) ← parseRow bottom
  pure ⟨a, b, c, d, e, f, g, h, i⟩

end Pattern

end Linework
