import Linework.Command.Run

/-! The command line program: its files are those on disk. -/

set_option autoImplicit false

namespace Linework.Command

def pathFault : IO.Error → PathFault
  | .noFileOrDirectory .. => .missing
  | .inappropriateType _ code _ => if code = 21 then .isDirectory else .notDirectory
  | e@(.invalidArgument _ code _) => if code = 36 then .tooLong else .other (toString e)
  | e => .other (toString e)

def diskFiles : Files IO where
  look path := do
    try return .ok (.file (← IO.FS.readBinFile path))
    catch e => match pathFault e with
      | .isDirectory => return .ok .directory
      | fault => return .error fault
  write path text := do
    try
      IO.FS.writeFile path text
      return .ok ()
    catch e => return .error (pathFault e)

def userDirectory : IO (Option String) := do
  match ← IO.getEnv "XDG_CONFIG_HOME", ← IO.getEnv "HOME" with
  | some directory, home =>
    return if directory.startsWith "/" then some directory else home.map (· ++ "/.config")
  | none, home => return home.map (· ++ "/.config")

end Linework.Command

open Linework

def main (words : List String) : IO UInt32 := do
  match Command.ofWords words with
  | .error .help => IO.println Command.helpText; return 0
  | .error .version => IO.println Command.versionText; return 0
  | .error usage => IO.eprintln ("error: " ++ usage.message); return 2
  | .ok command =>
    match ← (command.run Command.diskFiles (← Command.userDirectory)).run with
    | .ok () => return 0
    | .error fault => IO.eprint fault.report; return 1
