import Linework.Settings.Value

/-! The tables of a settings file while it is read.

A table may be opened by a header, arise on the way to another table, or come from a key with dots;
from this follows whether it may be opened or extended later.
-/

set_option autoImplicit false

namespace Linework.Toml

open Settings (Value)

/-- Where a table comes from. -/
inductive Origin where
  | header
  | passage
  | dots
  deriving DecidableEq, Repr

inductive Item where
  /-- A value that is complete. -/
  | done (v : Value)
  | table (origin : Origin) (entries : List (String × Item))
  /-- Tables opened one after the other under one name, latest first. -/
  | tables (latest : List (String × Item)) (earlier : List Value)

abbrev Entries := List (String × Item)

mutual

def Item.value : Item → Value
  | .done v => v
  | .table _ entries => .table (entryValues entries)
  | .tables latest earlier => .list ((.table (entryValues latest) :: earlier).reverse)

def entryValues : List (String × Item) → List (String × Value)
  | [] => []
  | (name, item) :: rest => (name, item.value) :: entryValues rest

end

namespace Entries

def put (es : Entries) (name : String) (item : Item) : Entries :=
  if es.any (·.1 == name) then es.map fun e => if e.1 == name then (name, item) else e
  else es ++ [(name, item)]

/-- Adds a value under a new name at the end of a path of words with dots. They lead through tables
that no header opens, and through the latest of several. The table that takes the value has to come
from dots, or there are none and it is this one, as `here` says. -/
def addAt? (here : Bool) (es : Entries) (value : Value) : List String → Option Entries
  | [] => none
  | [name] => if here && (es.lookup name).isNone then some (es.put name (.done value)) else none
  | name :: path =>
    match es.lookup name with
    | none => (addAt? true [] value path).map fun inner => es.put name (.table .dots inner)
    | some (.table .header _) => none
    | some (.table origin inner) =>
      (addAt? (origin = .dots) inner value path).map fun inner => es.put name (.table origin inner)
    | some (.tables latest earlier) =>
      (addAt? false latest value path).map fun latest => es.put name (.tables latest earlier)
    | some (.done _) => none

def add? (es : Entries) (value : Value) (path : List String) : Option Entries :=
  addAt? true es value path

/-- Changes the entries of the table at a path, along which tables arise where there are none. -/
def modify? (f : Entries → Option Entries) (es : Entries) : List String → Option Entries
  | [] => f es
  | name :: path =>
    match es.lookup name with
    | none => (modify? f [] path).map fun inner => es.put name (.table .passage inner)
    | some (.table origin inner) =>
      (modify? f inner path).map fun inner => es.put name (.table origin inner)
    | some (.tables latest earlier) =>
      (modify? f latest path).map fun latest => es.put name (.tables latest earlier)
    | some (.done _) => none

def openTable? (es : Entries) (name : String) : Option Entries :=
  match es.lookup name with
  | none => some (es.put name (.table .header []))
  | some (.table .passage inner) => some (es.put name (.table .header inner))
  | some _ => none

def openNext? (es : Entries) (name : String) : Option Entries :=
  match es.lookup name with
  | none => some (es.put name (.tables [] []))
  | some (.tables latest earlier) =>
    some (es.put name (.tables [] (.table (entryValues latest) :: earlier)))
  | some _ => none

end Entries

end Linework.Toml
