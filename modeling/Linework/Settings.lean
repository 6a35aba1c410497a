import Linework.Color.Css
import Linework.Numeral
import Linework.Recognition
import Linework.Settings.Value
import Linework.Svg

/-! What can be set: how a drawing is read, and how a diagram is drawn.

Settings come from an untyped value in which everything is optional. Colors are kept as text and
are read when they are needed.
-/

set_option autoImplicit false

namespace Linework

structure GridSettings where
  cellWidth : Float32
  cellHeight : Float32
  tabSize : Nat
  roundCorners : Bool
  customTags : List String

structure StyleSettings where
  background : String
  strokeColor : String
  strokeWidth : Float32
  font : String

structure Settings where
  grid : GridSettings
  style : StyleSettings

namespace Settings

inductive Fault where
  | cellSize (width height : Float32)
  | background (text : String) (fault : Color.Css.Fault)
  | strokeColor (text : String) (fault : Color.Css.Fault)

def Fault.message : Fault → String
  | .cellSize width height =>
    "Invalid cell size in config: " ++ decimalText width ++ "x" ++ decimalText height
  | .background text fault =>
    "Invalid background color in config: " ++ Color.cssFaultMessage text fault
  | .strokeColor text fault =>
    "Invalid stroke color in config: " ++ Color.cssFaultMessage text fault

end Settings

namespace GridSettings

def standard : GridSettings := ⟨10, 14, 8, false, []⟩

open Settings.Value in
def ofValue? (exact : Bool) (v : Settings.Value) : Option GridSettings := do
  match ← v.fields? exact
      ["cell_width", "cell_height", "tab_size", "round_corners", "custom_tags"] with
  | [width, height, tab, round, tags] =>
    pure {
      cellWidth := ← read standard.cellWidth length? width
      cellHeight := ← read standard.cellHeight length? height
      tabSize := ← read standard.tabSize count? tab
      roundCorners := ← read standard.roundCorners flag? round
      customTags := ← read standard.customTags texts? tags }
  | _ => none

def isLength (x : Float32) : Bool := x.isFinite && 0 < x

def cellSize (g : GridSettings) : Except Settings.Fault CellSize :=
  if isLength g.cellWidth && isLength g.cellHeight then .ok ⟨g.cellWidth, g.cellHeight⟩
  else .error (.cellSize g.cellWidth g.cellHeight)

def reading (g : GridSettings) : Except Settings.Fault Reading :=
  match g.cellSize with
  | .ok size => .ok ⟨size, g.tabSize, g.roundCorners, g.customTags⟩
  | .error fault => .error fault

end GridSettings

namespace StyleSettings

def standard : StyleSettings := ⟨"white", "black", 1, "monospace"⟩

open Settings.Value in
def ofValue? (exact : Bool) (v : Settings.Value) : Option StyleSettings := do
  match ← v.fields? exact ["background_color", "stroke_color", "stroke_width", "font_family"] with
  | [background, strokeColor, strokeWidth, font] =>
    pure {
      background := ← read standard.background text? background
      strokeColor := ← read standard.strokeColor text? strokeColor
      strokeWidth := ← read standard.strokeWidth length? strokeWidth
      font := ← read standard.font text? font }
  | _ => none

def backgroundColor (s : StyleSettings) : Except Settings.Fault Color :=
  (Color.ofCss s.background).mapError (.background s.background)

def lineColor (s : StyleSettings) : Except Settings.Fault Color :=
  (Color.ofCss s.strokeColor).mapError (.strokeColor s.strokeColor)

def pen (s : StyleSettings) : Except Settings.Fault Svg.Pen := do
  let background ← s.backgroundColor
  let color ← s.lineColor
  pure ⟨background, ⟨color, s.strokeWidth, false⟩, s.font⟩

end StyleSettings

namespace Settings

def standard : Settings := ⟨GridSettings.standard, StyleSettings.standard⟩

/-- Reads settings. Where `exact` holds, a list that stands for a table must not be longer than the
table has fields. -/
def ofValue? (exact : Bool) (v : Value) : Option Settings := do
  match ← v.fields? exact ["grid", "style"] with
  | [grid, style] =>
    pure {
      grid := ← Value.read GridSettings.standard (GridSettings.ofValue? exact) grid
      style := ← Value.read StyleSettings.standard (StyleSettings.ofValue? exact) style }
  | _ => none

end Settings

end Linework
