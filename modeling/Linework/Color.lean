import Linework.Numeral

/-! Colors, the codes for them that a drawing may contain, and how lines are drawn. -/

set_option autoImplicit false

namespace Linework

structure Color where
  red : UInt8
  green : UInt8
  blue : UInt8
  alpha : Float32
  deriving DecidableEq

namespace Color

def opaqueRGB (red green blue : UInt8) : Color := ⟨red, green, blue, 1⟩

def black : Color := opaqueRGB 0 0 0

def white : Color := opaqueRGB 255 255 255

def ofNumber (n : Nat) : Color :=
  opaqueRGB (n / 65536 % 256).toUInt8 (n / 256 % 256).toUInt8 (n % 256).toUInt8

def presets : List (String × Color) :=
  [("GRE", ofNumber 0x99dd99), ("BLU", ofNumber 0x5555bb), ("PNK", ofNumber 0xffaaaa),
    ("RED", ofNumber 0xee3322), ("YEL", ofNumber 0xffff33), ("BLK", ofNumber 0x000000)]

def preset? (name : String) : Option Color := presets.lookup name

/-- Three digits, one for each channel; the greatest digit stands for 255. -/
def ofDigits? (digits : List Char) : Option Color :=
  match digits.mapM Numeral.digit? with
  | some [r, g, b] => some (opaqueRGB (r * 17).toUInt8 (g * 17).toUInt8 (b * 17).toUInt8)
  | _ => none

def ofCode? (code : String) : Option Color := preset? code <|> ofDigits? code.toList

/-- Whether text on this color has to be light: no channel reaches 200. -/
def isDark (c : Color) : Bool := c.red < 200 && c.green < 200 && c.blue < 200

def hexPair (n : UInt8) : String :=
  String.ofList [Nat.digitChar (n.toNat / 16), Nat.digitChar (n.toNat % 16)]

def text (c : Color) : String := "#" ++ hexPair c.red ++ hexPair c.green ++ hexPair c.blue

end Color

structure Stroke where
  color : Color
  width : Float32
  dashed : Bool
  deriving DecidableEq

namespace Stroke

def plain : Stroke := ⟨Color.black, 1, false⟩

/-- Whether the style of this name is dashed. -/
def ofName? : String → Option Bool
  | "solid" => some false
  | "dashed" => some true
  | _ => none

def unknownNameMessage (name : String) : String := "unknown stroke style `" ++ name ++ "`"

def dashes? (dashed : Bool) : Option String := if dashed then some "5,5" else none

end Stroke

end Linework
