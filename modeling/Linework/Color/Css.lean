import Linework.Color
import Linework.Numeral
import Linework.Text

/-! Colors as style sheets write them: hexadecimal digits, names, and the `rgb` function.

Readers take the characters ahead and give back what they leave.
-/

set_option autoImplicit false

namespace Linework.Color

/-- Every name with the number of its color. A gray is spelled with an `a`, as in `gray`. -/
def names : List (String × Nat) :=
  [("aliceblue", 0xf0f8ff), ("antiquewhite", 0xfaebd7), ("aqua", 0x00ffff),
    ("aquamarine", 0x7fffd4), ("azure", 0xf0ffff), ("beige", 0xf5f5dc), ("bisque", 0xffe4c4),
    ("black", 0x000000), ("blanchedalmond", 0xffebcd), ("blue", 0x0000ff), ("blueviolet", 0x8a2be2),
    ("brown", 0xa52a2a), ("burlywood", 0xdeb887), ("cadetblue", 0x5f9ea0), ("chartreuse", 0x7fff00),
    ("chocolate", 0xd2691e), ("coral", 0xff7f50), ("cornflowerblue", 0x6495ed),
    ("cornsilk", 0xfff8dc), ("crimson", 0xdc143c), ("cyan", 0x00ffff), ("darkblue", 0x00008b),
    ("darkcyan", 0x008b8b), ("darkgoldenrod", 0xb8860b), ("darkgray", 0xa9a9a9),
    ("darkgreen", 0x006400), ("darkkhaki", 0xbdb76b), ("darkmagenta", 0x8b008b),
    ("darkolivegreen", 0x556b2f), ("darkorange", 0xff8c00), ("darkorchid", 0x9932cc),
    ("darkred", 0x8b0000), ("darksalmon", 0xe9967a), ("darkseagreen", 0x8fbc8f),
    ("darkslateblue", 0x483d8b), ("darkslategray", 0x2f4f4f), ("darkturquoise", 0x00ced1),
    ("darkviolet", 0x9400d3), ("deeppink", 0xff1493), ("deepskyblue", 0x00bfff),
    ("dimgray", 0x696969), ("dodgerblue", 0x1e90ff), ("firebrick", 0xb22222),
    ("floralwhite", 0xfffaf0), ("forestgreen", 0x228b22), ("fuchsia", 0xff00ff),
    ("gainsboro", 0xdcdcdc), ("ghostwhite", 0xf8f8ff), ("gold", 0xffd700), ("goldenrod", 0xdaa520),
    ("gray", 0x808080), ("green", 0x008000), ("greenyellow", 0xadff2f), ("honeydew", 0xf0fff0),
    ("hotpink", 0xff69b4), ("indianred", 0xcd5c5c), ("indigo", 0x4b0082), ("ivory", 0xfffff0),
    ("khaki", 0xf0e68c), ("lavender", 0xe6e6fa), ("lavenderblush", 0xfff0f5),
    ("lawngreen", 0x7cfc00), ("lemonchiffon", 0xfffacd), ("lightblue", 0xadd8e6),
    ("lightcoral", 0xf08080), ("lightcyan", 0xe0ffff), ("lightgoldenrodyellow", 0xfafad2),
    ("lightgray", 0xd3d3d3), ("lightgreen", 0x90ee90), ("lightpink", 0xffb6c1),
    ("lightsalmon", 0xffa07a), ("lightseagreen", 0x20b2aa), ("lightskyblue", 0x87cefa),
    ("lightslategray", 0x778899), ("lightsteelblue", 0xb0c4de), ("lightyellow", 0xffffe0),
    ("lime", 0x00ff00), ("limegreen", 0x32cd32), ("linen", 0xfaf0e6), ("magenta", 0xff00ff),
    ("maroon", 0x800000), ("mediumaquamarine", 0x66cdaa), ("mediumblue", 0x0000cd),
    ("mediumorchid", 0xba55d3), ("mediumpurple", 0x9370db), ("mediumseagreen", 0x3cb371),
    ("mediumslateblue", 0x7b68ee), ("mediumspringgreen", 0x00fa9a), ("mediumturquoise", 0x48d1cc),
    ("mediumvioletred", 0xc71585), ("midnightblue", 0x191970), ("mintcream", 0xf5fffa),
    ("mistyrose", 0xffe4e1), ("moccasin", 0xffe4b5), ("navajowhite", 0xffdead), ("navy", 0x000080),
    ("oldlace", 0xfdf5e6), ("olive", 0x808000), ("olivedrab", 0x6b8e23), ("orange", 0xffa500),
    ("orangered", 0xff4500), ("orchid", 0xda70d6), ("palegoldenrod", 0xeee8aa),
    ("palegreen", 0x98fb98), ("paleturquoise", 0xafeeee), ("palevioletred", 0xdb7093),
    ("papayawhip", 0xffefd5), ("peachpuff", 0xffdab9), ("peru", 0xcd853f), ("pink", 0xffc0cb),
    ("plum", 0xdda0dd), ("powderblue", 0xb0e0e6), ("purple", 0x800080), ("rebeccapurple", 0x663399),
    ("red", 0xff0000), ("rosybrown", 0xbc8f8f), ("royalblue", 0x4169e1), ("saddlebrown", 0x8b4513),
    ("salmon", 0xfa8072), ("sandybrown", 0xf4a460), ("seagreen", 0x2e8b57), ("seashell", 0xfff5ee),
    ("sienna", 0xa0522d), ("silver", 0xc0c0c0), ("skyblue", 0x87ceeb), ("slateblue", 0x6a5acd),
    ("slategray", 0x708090), ("snow", 0xfffafa), ("springgreen", 0x00ff7f), ("steelblue", 0x4682b4),
    ("tan", 0xd2b48c), ("teal", 0x008080), ("thistle", 0xd8bfd8), ("tomato", 0xff6347),
    ("turquoise", 0x40e0d0), ("violet", 0xee82ee), ("wheat", 0xf5deb3), ("white", 0xffffff),
    ("whitesmoke", 0xf5f5f5), ("yellow", 0xffff00), ("yellowgreen", 0x9acd32)]

namespace Css

inductive Fault where
  | unknownIdentifier
  | unknownSyntax
  | unknownComponent
  | noArguments
  | noComma
  | noParenthesis
  | notAtEnd
  | digitCount
  deriving DecidableEq, Repr

def Fault.message : Fault → String
  | .unknownIdentifier => "unknown color identifier"
  | .unknownSyntax => "unknown color syntax"
  | .unknownComponent => "unknown color component"
  | .noArguments => "expected arguments"
  | .noComma => "expected comma"
  | .noParenthesis => "expected closing parenthesis"
  | .notAtEnd => "expected end of string"
  | .digitCount => "wrong number of hex digits"

def isBlank (c : Char) : Bool := c == ' ' || c == '\t' || c == '\n' || c == '\r'

def closeComment? : List Char → Option (List Char)
  | '*' :: '/' :: rest => some rest
  | _ :: rest => closeComment? rest
  | [] => none

theorem closeComment?_length {cs rest : List Char} (h : closeComment? cs = some rest) :
    rest.length ≤ cs.length := by
  fun_induction closeComment? cs with
  | case1 => cases h; simp; omega
  | case2 _ _ _ ih => exact Nat.le_trans (ih h) (by simp)
  | case3 => cases h

def skip (cs : List Char) : List Char :=
  match cs with
  | '/' :: '*' :: inside =>
    match _h : closeComment? inside with
    | some rest => skip rest
    | none => cs
  | c :: rest => if isBlank c then skip rest else cs
  | [] => []
termination_by cs.length
decreasing_by
  · have := closeComment?_length _h
    simp only [List.length_cons]
    omega
  · simp

/-- Takes a certain character, after blanks and comments. The slash of a comment that is never closed
is no sign of its own. -/
def sign? (c : Char) (cs : List Char) : Option (List Char) :=
  match skip cs with
  | '/' :: '*' :: _ => none
  | d :: rest => if d = c then some rest else none
  | [] => none

def signed (cs : List Char) : Bool × List Char :=
  match cs with
  | '+' :: rest => (false, rest)
  | '-' :: rest => (true, rest)
  | _ => (false, cs)

def fraction (cs : List Char) : List Char × List Char :=
  match cs with
  | '.' :: rest =>
    let digits := rest.takeWhile Char.isDigit
    if digits.isEmpty then ([], cs) else (digits, rest.dropWhile Char.isDigit)
  | _ => ([], cs)

def power (cs : List Char) : Int × List Char :=
  match cs with
  | 'e' :: rest | 'E' :: rest =>
    let (minus, rest) := signed rest
    let digits := rest.takeWhile Char.isDigit
    if digits.isEmpty then (0, cs)
    else
      let n : Int := Numeral.ofChars 10 digits
      (if minus then -n else n, rest.dropWhile Char.isDigit)
  | _ => (0, cs)

def number? (cs : List Char) : Option (Float × List Char) :=
  let (minus, rest) := signed cs
  let whole := rest.takeWhile Char.isDigit
  let (places, rest) := fraction (rest.dropWhile Char.isDigit)
  if whole.isEmpty && places.isEmpty then none
  else
    let (exponent, rest) := power rest
    some (Numeral.double minus (Numeral.ofChars 10 (whole ++ places)) (exponent - places.length),
      rest)

/-- Letters, digits, lines and hyphens; it begins with no digit, also after a hyphen, and not with
two hyphens. -/
def name? (cs : List Char) : Option (List Char × List Char) :=
  let first (c : Char) : Bool := c.isAlpha || c == '_'
  let later (c : Char) : Bool := first c || c == '-' || c.isDigit
  match cs with
  | '-' :: c :: rest =>
    if first c then some ('-' :: c :: rest.takeWhile later, rest.dropWhile later) else none
  | c :: rest => if first c then some (c :: rest.takeWhile later, rest.dropWhile later) else none
  | [] => none

def clamp (x : Float) : Float := if x < 0 then 0 else if 1 < x then 1 else x

/-- One argument as a part of the whole: a number of units, a percentage, or nothing at all. A number
with a name right behind it is a measure and has no meaning here. -/
def component (unit : Float) (cs : List Char) : Except Fault (Float32 × List Char) :=
  match number? (skip cs) with
  | some (n, '%' :: rest) => .ok ((clamp (n * 0.01)).toFloat32, rest)
  | some (n, rest) =>
    if (name? rest).isSome then .error .unknownComponent
    else .ok ((clamp (n * unit)).toFloat32, rest)
  | none =>
    match name? (skip cs) with
    | some (word, rest) =>
      if word.map Char.toLower = "none".toList then .ok (0, rest) else .error .unknownComponent
    | none => .error .unknownComponent

def channel (x : Float32) : UInt8 := (x * 255).round.toUInt8

/-- The arguments of `rgb`, in the old form with commas or in the new one with a slash. -/
def arguments (cs : List Char) : Except Fault (Color × List Char) := do
  let unit : Float := 1 / 255
  let (r, cs) ← component unit cs
  let comma := sign? ',' cs
  let (g, cs) ← component unit (comma.getD cs)
  let cs ← if comma.isSome then
      match sign? ',' cs with
      | some rest => pure rest
      | none => throw .noComma
    else pure cs
  let (b, cs) ← component unit cs
  let (a, cs) ← match sign? (if comma.isSome then ',' else '/') cs with
    | some rest => component 1 rest
    | none => pure (1, cs)
  match sign? ')' cs with
  | some rest => pure (⟨channel r, channel g, channel b, a⟩, rest)
  | none => throw .noParenthesis

/-- As many digits as there are, up to eight: one or two for each channel, perhaps with the alpha. -/
def hex (cs : List Char) : Except Fault (Color × List Char) :=
  let digits := (cs.take 8).takeWhile fun c => (Numeral.digit? c).isSome
  let rest := cs.drop digits.length
  let pair (high low : Nat) : UInt8 := (high * 16 + low).toUInt8
  let part (n : UInt8) : Float32 := n.toFloat32 * (1 / 255)
  match digits.filterMap Numeral.digit? with
  | [r, g, b] => .ok (opaqueRGB (pair r r) (pair g g) (pair b b), rest)
  | [r, g, b, a] => .ok (⟨pair r r, pair g g, pair b b, part (pair a a)⟩, rest)
  | [r, r', g, g', b, b'] => .ok (opaqueRGB (pair r r') (pair g g') (pair b b'), rest)
  | [r, r', g, g', b, b', a, a'] =>
    .ok (⟨pair r r', pair g g', pair b b', part (pair a a')⟩, rest)
  | _ => .error .digitCount

/-- The functions of style sheets that give colors. Only the first two are read; of the others it is
known that they need arguments. -/
def functions : List String :=
  ["rgb", "rgba", "hsl", "hsla", "hwb", "lab", "lch", "oklab", "oklch", "color"]

def reading (cs : List Char) : Except Fault (Color × List Char) :=
  match cs with
  | '#' :: digits => hex digits
  | _ =>
    match name? cs with
    | none => .error .unknownSyntax
    | some (word, rest) =>
      match String.ofList (word.map Char.toLower), rest with
      | "rgb", '(' :: inside | "rgba", '(' :: inside => arguments inside
      | "transparent", _ => .ok (⟨0, 0, 0, 0⟩, rest)
      | lower, _ =>
        match names.lookup lower with
        | some n => .ok (ofNumber n, rest)
        | none =>
          if functions.contains lower && rest.head? != some '(' then .error .noArguments
          else .error .unknownIdentifier

end Css

def ofCss (text : String) : Except Css.Fault Color := do
  match ← Css.reading (Text.trim text.toList) with
  | (color, []) => pure color
  | _ => throw .notAtEnd

def cssFaultMessage (text : String) (fault : Css.Fault) : String :=
  "invalid color `" ++ text ++ "`: " ++ fault.message

end Linework.Color
