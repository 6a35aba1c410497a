import Linework.Command
import Linework.FileTree
import Linework.Toml

/-! Carrying out a command: find the settings, read the drawing, write the picture. -/

set_option autoImplicit false

namespace Linework.Command

variable {m : Type → Type} [Monad m]

def ioFault (fault : PathFault) : Fault := .io fault.message

def readText (files : Files m) (path : String) : ExceptT Fault m String := do
  match ← files.look path with
  | .error fault => throw (ioFault fault)
  | .ok entry => ExceptT.mk (pure (entry.text.mapError ioFault))

def readSettings (files : Files m) (path : String) : ExceptT Fault m Settings := do
  let text ← readText files path
  match (Toml.parse? text).bind (Settings.ofValue? false) with
  | some settings => pure settings
  | none => throw (.settings ("Failed to parse config file " ++ path))

/-- Where settings are looked for unless the command names a file: below the working directory, then
below the directory of the user's settings. -/
def settingsPaths (userDirectory : Option String) : List String :=
  "scrawl/config.toml" :: userDirectory.toList.map (· ++ "/scrawl/config.toml")

def firstFile? (files : Files m) : List String → m (Option String)
  | [] => pure none
  | path :: rest => do
    match ← files.look path with
    | .ok (.file _) => pure (some path)
    | _ => firstFile? files rest

def settings (files : Files m) (userDirectory : Option String) (c : Command) :
    ExceptT Fault m Settings := do
  match c.config with
  | some path =>
    match ← files.look path with
    | .error _ => throw (.settings ("Config file not found: " ++ path))
    | .ok _ => readSettings files path
  | none =>
    match ← (firstFile? files (settingsPaths userDirectory) : m (Option String)) with
    | some path => readSettings files path
    | none => pure Settings.standard

def picture (files : Files m) (userDirectory : Option String) (c : Command) :
    ExceptT Fault m String := do
  let settings ← c.settings files userDirectory
  let source ← readText files c.input
  ExceptT.mk (pure ((settings.parse source).bind settings.render))

def run (files : Files m) (userDirectory : Option String) (c : Command) :
    ExceptT Fault m Unit := do
  let text ← c.picture files userDirectory
  match ← files.write c.output text with
  | .error fault => throw (ioFault fault)
  | .ok () => pure ()

end Linework.Command
