import Linework.Grid
import Linework.Settings

/-! Everything that can go wrong between a drawing and its picture, and how it is reported. -/

set_option autoImplicit false

namespace Linework

inductive Fault where
  | io (message : String)
  | recognition (cause : Grid.Fault)
  | settings (message : String)
  | rendering (message : String)

namespace Fault

def cause? : Fault → Option String
  | .io message => some message
  | .recognition cause => some cause.message
  | .settings _ | .rendering _ => none

def message : Fault → String
  | .io message => "I/O error: " ++ message
  | .recognition cause => "Recognition error: " ++ cause.message
  | .settings message => "Configuration error: " ++ message
  | .rendering message => "Export error: " ++ message

def code : Fault → String
  | .io _ => "scrawl::io"
  | .recognition _ => "scrawl::grid"
  | .settings _ => "scrawl::config"
  | .rendering _ => "scrawl::export"

def advice? : Fault → Option String
  | .settings _ => some "check the [grid] and [style] sections of the config file"
  | .io _ | .recognition _ | .rendering _ => none

def dropBlanks (s : String) : String :=
  String.ofList (s.toList.reverse.dropWhile (· == ' ')).reverse

def report (f : Fault) : String :=
  let lines := [f.code, "", "  x " ++ dropBlanks f.message]
    ++ f.cause?.toList.map (fun cause => "  `-> " ++ dropBlanks cause)
    ++ f.advice?.toList.map fun advice => "  help: " ++ advice
  String.join (lines.map (· ++ "\n"))

/-- Settings that cannot be used are a matter of configuration while a drawing is read, and of
rendering when it is drawn. -/
def ofReading (fault : Settings.Fault) : Fault := .settings fault.message

def ofDrawing (fault : Settings.Fault) : Fault := .rendering ("Render error: " ++ fault.message)

end Fault

namespace Settings

def parse (s : Settings) (source : String) : Except Linework.Fault Diagram := do
  let reading ← s.grid.reading.mapError Linework.Fault.ofReading
  (recognize reading source).mapError Linework.Fault.recognition

def render (s : Settings) (d : Diagram) : Except Linework.Fault String := do
  let pen ← s.style.pen.mapError Linework.Fault.ofDrawing
  pure (Svg.document pen d).render

end Settings

end Linework
