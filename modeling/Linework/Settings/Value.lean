/-! Untyped values of a settings file. -/

set_option autoImplicit false

namespace Linework.Settings

inductive Value where
  | integer (n : Int)
  | real (x : Float)
  | text (s : String)
  | flag (b : Bool)
  | list (values : List Value)
  | table (entries : List (String × Value))
  /-- A date or a time of day. It counts as a table of which no setting makes use. -/
  | moment
  | nothing

namespace Value

def isWord (n : Int) : Bool := Int64.minValue.toInt ≤ n && n < UInt64.size

def length? : Value → Option Float32
  | .integer n => if isWord n then some (Float32.ofInt n) else none
  | .real x => some x.toFloat32
  | _ => none

def count? : Value → Option Nat
  | .integer (.ofNat n) => if isWord n then some n else none
  | _ => none

def flag? : Value → Option Bool
  | .flag b => some b
  | _ => none

def text? : Value → Option String
  | .text s => some s
  | _ => none

def texts? : Value → Option (List String)
  | .list values => values.mapM text?
  | _ => none

/-- The values of named fields: a table gives them by name and may hold others, a list in order. Of
a list `exact` asks that it be no longer than there are fields. A moment gives none of them. -/
def fields? (exact : Bool) (names : List String) : Value → Option (List (Option Value))
  | .table entries => some (names.map fun name => entries.lookup name)
  | .list values =>
    if exact && values.length > names.length then none
    else some ((List.range names.length).map fun i => values[i]?)
  | .moment => some (names.map fun _ => none)
  | _ => none

def read {α : Type} (standard : α) (reader : Value → Option α) : Option Value → Option α
  | none => some standard
  | some v => reader v

end Value

end Linework.Settings
