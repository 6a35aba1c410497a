import Linework.Fault

/-! Access to files, and files held in memory.

A place is the list of names on the way to it from the root. A path is walked name by name, and each
of them has to be looked up in a directory.
-/

set_option autoImplicit false

namespace Linework

/-- Why a path leads to nothing that can be read or written. -/
inductive PathFault where
  | missing
  | notDirectory
  | isDirectory
  | tooLong
  /-- The path holds a character that no path can hold. -/
  | nulByte
  | notText
  | other (message : String)
  deriving DecidableEq, Repr

def PathFault.message : PathFault → String
  | .missing => "No such file or directory (os error 2)"
  | .notDirectory => "Not a directory (os error 20)"
  | .isDirectory => "Is a directory (os error 21)"
  | .tooLong => "File name too long (os error 36)"
  | .nulByte => "file name contained an unexpected NUL byte"
  | .notText => "stream did not contain valid UTF-8"
  | .other message => message

inductive Entry where
  | file (content : ByteArray)
  | directory

def Entry.isFile : Entry → Bool
  | .file _ => true
  | .directory => false

def Entry.text : Entry → Except PathFault String
  | .directory => .error .isDirectory
  | .file content =>
    match String.fromUTF8? content with
    | some text => .ok text
    | none => .error .notText

structure Files (m : Type → Type) where
  look : String → m (Except PathFault Entry)
  write : String → String → m (Except PathFault Unit)

structure FileTree where
  /-- The directory where paths start that do not start at the root. -/
  home : List String
  files : List (List String × ByteArray)
  /-- Directories that need not hold anything. -/
  directories : List (List String)

namespace FileTree

def names (path : String) : List String := (path.splitOn "/").filter (· != "")

def nameLimit : Nat := 255

def pathLimit : Nat := 4095

def ofFiles (home : List String) (files : List (String × ByteArray)) (directories : List String) :
    FileTree :=
  ⟨home, files.map fun (path, content) => (home ++ names path, content),
    home :: directories.map (home ++ names ·)⟩

/-- Every directory on the way to something is there as well, and the root always is. -/
def isDirectory (t : FileTree) (place : List String) : Bool :=
  place.isEmpty || t.directories.any place.isPrefixOf
    || t.files.any fun (other, _) => other != place && place.isPrefixOf other

def entry? (t : FileTree) (place : List String) : Option Entry :=
  match t.files.lookup place with
  | some content => some (.file content)
  | none => if t.isDirectory place then some .directory else none

def enter (t : FileTree) (place : List String) (name : String) : Except PathFault (List String) :=
  match t.entry? place with
  | none => .error .missing
  | some (.file _) => .error .notDirectory
  | some .directory =>
    if name = "." then .ok place
    else if name = ".." then .ok place.dropLast
    else if nameLimit < name.utf8ByteSize then .error .tooLong
    else .ok (place ++ [name])

def walk (t : FileTree) (path : String) (names : List String) : Except PathFault (List String) :=
  if path.contains '\x00' then .error .nulByte
  else if pathLimit < path.utf8ByteSize then .error .tooLong
  else if path.isEmpty then .error .missing
  else names.foldlM t.enter (if path.startsWith "/" then [] else t.home)

/-- What lies at a path. A slash at its end stands for a dot after it. -/
def look (t : FileTree) (path : String) : Except PathFault Entry := do
  let ending := if path.endsWith "/" then ["."] else []
  match t.entry? (← t.walk path (names path ++ ending)) with
  | none => throw .missing
  | some entry => pure entry

/-- Writes a file, new or in the place of another, into a directory that is there. A slash or dots
at the end of the path ask for a directory, which is no file to write. -/
def write (t : FileTree) (path text : String) : Except PathFault FileTree := do
  let parent ← t.walk path ((names path).dropLast ++ ["."])
  let name := (names path).getLast?.getD "."
  if path.endsWith "/" || name = "." || name = ".." then throw .isDirectory
  let place ← t.enter parent name
  if t.isDirectory place then throw .isDirectory
  pure { t with files := (place, text.toUTF8) :: t.files.filter fun file => file.1 != place }

def access : Files (StateM FileTree) where
  look path := do pure ((← get).look path)
  write path text := do
    match (← get).write path text with
    | .error fault => pure (.error fault)
    | .ok t => set t; pure (.ok ())

end FileTree

end Linework
