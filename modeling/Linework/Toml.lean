import Linework.Toml.Lexeme
import Linework.Toml.Tree

/-! Settings files: tables of keys and values, opened by headers in brackets. -/

set_option autoImplicit false

namespace Linework.Toml

open Settings (Value)

mutual

/-- A value in which at most `room` lists and tables in braces are nested; `fuel` bounds the number
of steps. -/
def value? (fuel room : Nat) (cs : List Char) : Option (Value × List Char) :=
  match fuel with
  | 0 => none
  | fuel + 1 =>
    match cs, room with
    | '[' :: rest, room + 1 =>
      (elements? fuel room [] rest).map fun (values, rest) => (.list values, rest)
    | '{' :: rest, room + 1 =>
      (members? fuel room [] rest).map fun (entries, rest) => (.table (entryValues entries), rest)
    | _, _ => scalar? cs

def elements? (fuel room : Nat) (sofar : List Value) (cs : List Char) :
    Option (List Value × List Char) :=
  match fuel with
  | 0 => none
  | fuel + 1 =>
    match skipLines cs.length cs with
    | ']' :: rest => some (sofar.reverse, rest)
    | rest =>
      match value? fuel room rest with
      | none => none
      | some (v, rest) =>
        match skipLines rest.length rest with
        | ',' :: rest => elements? fuel room (v :: sofar) rest
        | ']' :: rest => some ((v :: sofar).reverse, rest)
        | _ => none

def members? (fuel room : Nat) (sofar : Entries) (cs : List Char) : Option (Entries × List Char) :=
  match fuel with
  | 0 => none
  | fuel + 1 =>
    match skipLines cs.length cs with
    | '}' :: rest => some (sofar, rest)
    | rest =>
      match key? rest with
      | none => none
      | some (path, rest) =>
        match skipLines rest.length rest with
        | '=' :: rest =>
          match value? fuel room (skipLines rest.length rest) with
          | none => none
          | some (v, rest) =>
            match sofar.add? v path, skipLines rest.length rest with
            | some entries, ',' :: rest => members? fuel room entries rest
            | some entries, '}' :: rest => some (entries, rest)
            | _, _ => none
        | _ => none

end

structure Document where
  root : Entries
  path : List String

def Document.assign? (d : Document) (cs : List Char) : Option (Document × List Char) := do
  let (path, rest) ← key? cs
  let (v, rest) ← value? (rest.length + 1) depthLimit (skipBlanks (← sign? '=' rest))
  let rest ← endLine? rest
  pure ({ d with root := ← d.root.modify? (·.add? v path) d.path }, rest)

def Document.enter? (d : Document) (next : Bool) (cs : List Char) :
    Option (Document × List Char) := do
  let (path, rest) ← key? cs
  let rest ← sign? ']' rest
  let rest ← if next then sign? ']' rest else some rest
  let rest ← endLine? rest
  let name ← path.getLast?
  let opened (es : Entries) : Option Entries := if next then es.openNext? name else es.openTable? name
  pure (⟨← d.root.modify? opened path.dropLast, path⟩, rest)

/-- Reads line after line, at most `fuel` of them. -/
def Document.read? (d : Document) (fuel : Nat) (cs : List Char) : Option Document :=
  match fuel with
  | 0 => none
  | fuel + 1 =>
    match skipLines cs.length cs with
    | [] => some d
    | '[' :: '[' :: rest => (d.enter? true rest).bind fun (d, rest) => d.read? fuel rest
    | '[' :: rest => (d.enter? false rest).bind fun (d, rest) => d.read? fuel rest
    | rest => (d.assign? rest).bind fun (d, rest) => d.read? fuel rest

def parse? (text : String) : Option Value :=
  let cs := match text.toList with
    | '\ufeff' :: rest => rest
    | cs => cs
  (Document.read? ⟨[], []⟩ (cs.length + 1) cs).map fun d => .table (entryValues d.root)

end Linework.Toml
