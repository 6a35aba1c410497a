import Linework.Numeral
import Linework.Settings.Value

/-! The words of a settings file: blanks, strings, numbers, dates and keys.

A reader takes the characters ahead and gives what it read with what it leaves, or nothing where
there is no such word.
-/

set_option autoImplicit false

namespace Linework.Toml

open Settings (Value)

def isBlank (c : Char) : Bool := c == ' ' || c == '\t'

def skipBlanks (cs : List Char) : List Char := cs.dropWhile isBlank

def isControl (c : Char) : Bool := (c.toNat < 32 && c != '\t') || c.toNat == 127

def newline? : List Char → Option (List Char)
  | '\n' :: rest => some rest
  | '\r' :: '\n' :: rest => some rest
  | _ => none

def skipComment : List Char → List Char
  | '#' :: rest => rest.dropWhile fun c => !isControl c
  | cs => cs

def endLine? (cs : List Char) : Option (List Char) :=
  match skipComment (skipBlanks cs) with
  | [] => some []
  | rest => newline? rest

/-- Drops blanks, comments and whole lines, at most `fuel` of them. -/
def skipLines : Nat → List Char → List Char
  | 0, cs => cs
  | fuel + 1, cs =>
    let rest := skipComment (skipBlanks cs)
    match newline? rest with
    | some next => skipLines fuel next
    | none => rest

def depthLimit : Nat := 80

def isBareSign (c : Char) : Bool := c.isAlphanum || c == '_' || c == '-'

/-! ### Strings -/

def numbered? (count : Nat) (cs : List Char) : Option (Char × List Char) :=
  let digits := cs.take count
  let n := Numeral.ofChars 16 digits
  if digits.length = count ∧ digits.all (fun c => (Numeral.digit? c).isSome) ∧ n.isValidChar then
    some (Char.ofNat n, cs.drop count)
  else none

def escaped? : List Char → Option (Char × List Char)
  | 'b' :: rest => some ('\x08', rest)
  | 't' :: rest => some ('\t', rest)
  | 'n' :: rest => some ('\n', rest)
  | 'f' :: rest => some ('\x0c', rest)
  | 'r' :: rest => some ('\r', rest)
  | 'e' :: rest => some ('\x1b', rest)
  | '"' :: rest => some ('"', rest)
  | '\\' :: rest => some ('\\', rest)
  | 'x' :: rest => numbered? 2 rest
  | 'u' :: rest => numbered? 4 rest
  | 'U' :: rest => numbered? 8 rest
  | _ => none

def lineString? (quote : Char) (sofar : List Char) : Nat → List Char → Option (String × List Char)
  | 0, _ => none
  | _, [] => none
  | fuel + 1, c :: rest =>
    if c = quote then some (String.ofList sofar.reverse, rest)
    else if c = '\\' ∧ quote = '"' then
      match escaped? rest with
      | some (char, rest) => lineString? quote (char :: sofar) fuel rest
      | none => none
    else if isControl c then none
    else lineString? quote (c :: sofar) fuel rest

def skipSpace : List Char → List Char
  | '\r' :: '\n' :: rest => skipSpace rest
  | c :: rest => if isBlank c || c == '\n' then skipSpace rest else c :: rest
  | [] => []

/-- The rest of a string over lines, up to three quotes; one or two more belong to the string. Its
lines end as they are written. -/
def blockString? (quote : Char) (sofar : List Char) : Nat → List Char → Option (String × List Char)
  | 0, _ => none
  | _, [] => none
  | fuel + 1, c :: rest =>
    let quotes := ((c :: rest).takeWhile (· == quote)).length
    if quotes ≥ 3 then
      let inside := min (quotes - 3) 2
      some (String.ofList (sofar.reverse ++ List.replicate inside quote), rest.drop (inside + 2))
    else if c = '\\' ∧ quote = '"' then
      match escaped? rest with
      | some (char, rest) => blockString? quote (char :: sofar) fuel rest
      | none =>
        match newline? (skipBlanks rest) with
        | some next => blockString? quote sofar fuel (skipSpace next)
        | none => none
    else if isControl c && (newline? (c :: rest)).isNone then none
    else blockString? quote (c :: sofar) fuel rest

/-- A string in single or double quotes; a newline right after three quotes does not count. -/
def string? (cs : List Char) : Option (String × List Char) :=
  let block (quote : Char) (rest : List Char) : Option (String × List Char) :=
    let inside := (newline? rest).getD rest
    blockString? quote [] (inside.length + 1) inside
  match cs with
  | '"' :: '"' :: '"' :: rest => block '"' rest
  | '\'' :: '\'' :: '\'' :: rest => block '\'' rest
  | '"' :: rest => lineString? '"' [] (rest.length + 1) rest
  | '\'' :: rest => lineString? '\'' [] (rest.length + 1) rest
  | _ => none

/-! ### Keys -/

def keyWord? (cs : List Char) : Option (String × List Char) :=
  match cs with
  | '"' :: rest => lineString? '"' [] (rest.length + 1) rest
  | '\'' :: rest => lineString? '\'' [] (rest.length + 1) rest
  | _ =>
    let word := cs.takeWhile isBareSign
    if word.isEmpty then none else some (String.ofList word, cs.dropWhile isBareSign)

/-- At most so many words with dots between them, all on one line. -/
def keyWords? : Nat → List Char → Option (List String × List Char)
  | 0, _ => none
  | count + 1, cs =>
    match keyWord? (skipBlanks cs) with
    | none => none
    | some (word, rest) =>
      match skipBlanks rest with
      | '.' :: next => (keyWords? count next).map fun (words, rest) => (word :: words, rest)
      | rest => some ([word], rest)

def key? (cs : List Char) : Option (List String × List Char) := keyWords? depthLimit cs

/-! ### Numbers, flags and dates -/

def digits? (base : Nat) (cs : List Char) : Option (List Char) :=
  let isDigit (c : Char) : Bool := (Numeral.digit? c).any fun d => d < base
  let underscoresWithin := (cs.zip (cs.drop 1)).all fun (a, b) => !(a == '_' && b == '_')
  if cs.all (fun c => isDigit c || c == '_') && cs.head?.any isDigit && cs.getLast?.any isDigit
      && underscoresWithin then
    some (cs.filter (· != '_'))
  else none

def sign (cs : List Char) : Bool × Bool × List Char :=
  match cs with
  | '+' :: rest => (true, false, rest)
  | '-' :: rest => (true, true, rest)
  | _ => (false, false, cs)

def whole? (cs : List Char) : Option (List Char) :=
  (digits? 10 cs).filter fun ds => ds.length == 1 || ds.head? != some '0'

def inRange (n : Int) : Option Value :=
  let limit : Int := (1 <<< 128 : Nat)
  if -limit ≤ 2 * n ∧ n < limit then some (.integer n) else none

def splitAt (isSign : Char → Bool) (cs : List Char) : List Char × Option (List Char) :=
  (cs.takeWhile fun c => !isSign c, (cs.dropWhile fun c => !isSign c).tail?)

/-- A number with a point or a power of ten. There is none too large for a double. -/
def real? (minus : Bool) (cs : List Char) : Option Value :=
  let (mantissa, power) := splitAt (fun c => c == 'e' || c == 'E') cs
  let (before, after) := splitAt (· == '.') mantissa
  match whole? before, after.map (digits? 10), power.map fun p => (sign p).2 with
  | some before, places, power =>
    let places? := match places with
      | none => some []
      | some digits => digits
    let power? : Option Int := match power with
      | none => some 0
      | some (minus, digits) => (digits? 10 digits).map fun ds =>
        let n : Int := Numeral.ofChars 10 ds
        if minus then -n else n
    match places?, power? with
    | some places, some exponent =>
      let x :=
        Numeral.double minus (Numeral.ofChars 10 (before ++ places)) (exponent - places.length)
      if (after.isNone && power.isNone) || x.isInf then none else some (.real x)
    | _, _ => none
  | none, _, _ => none

def number? (word : List Char) : Option Value :=
  let (signed, minus, cs) := sign word
  match cs with
  | ['i', 'n', 'f'] => some (.real (if minus then -1 / 0 else 1 / 0))
  | ['n', 'a', 'n'] => some (.real (0 / 0))
  | '0' :: 'x' :: ds => if signed then none else (digits? 16 ds).bind (inRange <| Numeral.ofChars 16 ·)
  | '0' :: 'o' :: ds => if signed then none else (digits? 8 ds).bind (inRange <| Numeral.ofChars 8 ·)
  | '0' :: 'b' :: ds => if signed then none else (digits? 2 ds).bind (inRange <| Numeral.ofChars 2 ·)
  | _ =>
    match whole? cs with
    | some ds =>
      let n : Int := Numeral.ofChars 10 ds
      inRange (if minus then -n else n)
    | none => real? minus cs

def field? (count low high : Nat) (cs : List Char) : Option (Nat × List Char) :=
  let ds := cs.take count
  let n := Numeral.ofChars 10 ds
  if ds.length = count ∧ ds.all Char.isDigit ∧ low ≤ n ∧ n ≤ high then some (n, cs.drop count)
  else none

def sign? (c : Char) : List Char → Option (List Char)
  | d :: rest => if d = c then some rest else none
  | [] => none

def minutes? (cs : List Char) : Option (List Char) := do
  let (_, cs) ← field? 2 0 23 cs
  let (_, cs) ← field? 2 0 59 (← sign? ':' cs)
  pure cs

def time? (cs : List Char) : Option (List Char) := do
  let cs ← minutes? cs
  match cs with
  | ':' :: rest =>
    let (_, rest) ← field? 2 0 60 rest
    match rest with
    | '.' :: c :: rest => if c.isDigit then some (rest.dropWhile Char.isDigit) else none
    | _ => some rest
  | _ => some cs

def isLeapYear (year : Nat) : Bool := year % 4 == 0 && (year % 100 != 0 || year % 400 == 0)

def monthLength (year month : Nat) : Nat :=
  if month = 2 then (if isLeapYear year then 29 else 28)
  else if month = 4 ∨ month = 6 ∨ month = 9 ∨ month = 11 then 30
  else 31

def date? (cs : List Char) : Option (List Char) := do
  let (year, cs) ← field? 4 0 9999 cs
  let (month, cs) ← field? 2 1 12 (← sign? '-' cs)
  let (_, cs) ← field? 2 1 (monthLength year month) (← sign? '-' cs)
  pure cs

def zone? : List Char → Option (List Char)
  | 'Z' :: rest | 'z' :: rest => some rest
  | '+' :: rest | '-' :: rest => minutes? rest
  | _ => none

def moment? (cs : List Char) : Option (List Char) :=
  match date? cs with
  | some rest =>
    match rest with
    | c :: more =>
      if c == 'T' || c == 't' || c == ' ' then
        match time? more with
        | some rest => some ((zone? rest).getD rest)
        | none => if c == ' ' then some rest else none
      else some rest
    | [] => some []
  | none => time? cs

/-- A value that is written as one word. -/
def scalar? (cs : List Char) : Option (Value × List Char) :=
  match string? cs with
  | some (s, rest) => some (.text s, rest)
  | none =>
    let isSign (c : Char) : Bool := isBareSign c || c == '+' || c == '.'
    let word := cs.takeWhile isSign
    let rest := cs.dropWhile isSign
    if word = "true".toList then some (.flag true, rest)
    else if word = "false".toList then some (.flag false, rest)
    else
      match moment? cs with
      | some rest => some (.moment, rest)
      | none => (number? word).map fun v => (v, rest)

end Linework.Toml
