/-! The command line: one drawing to be read, and options that take a value each.

A value stands after its option or is attached to it. An option counts as given only once the next
word that is no value of it has come, so of two faults the one is reported that shows first.
-/

set_option autoImplicit false

namespace Linework

namespace Command

inductive Setting where
  | output
  | config
  | logLevel
  deriving DecidableEq, Repr

/-- Why nothing is drawn: a request for information, or words that make no sense. -/
inductive Usage where
  | help
  | version
  | unknownArgument
  | missingValue
  | unneededValue
  | repeatedOption
  | missingInput
  deriving DecidableEq, Repr

def Usage.message : Usage → String
  | .help => "help is asked for"
  | .version => "the version is asked for"
  | .unknownArgument => "there is a word that is neither an option nor the drawing"
  | .missingValue => "an option lacks its value"
  | .unneededValue => "an option takes no value"
  | .repeatedOption => "an option is given twice"
  | .missingInput => "no drawing is given"

def helpText : String :=
  "\n".intercalate ["Usage: scrawl [OPTIONS] <INPUT>", "", "Options:",
    "  -o, --output <OUTPUT>     where to write the picture [default: out.svg]",
    "  -c, --config <CONFIG>     the settings file",
    "      --log-level <LEVEL>   how much to tell [default: info]",
    "  -h, --help                print this text",
    "  -V, --version             print the version"]

def versionText : String := "scrawl 0.1.0"

inductive Request where
  | setting (s : Setting)
  | information (u : Usage)
  deriving DecidableEq, Repr

def Request.ofName? : String → Option Request
  | "output" => some (.setting .output)
  | "config" => some (.setting .config)
  | "log-level" => some (.setting .logLevel)
  | "help" => some (.information .help)
  | "version" => some (.information .version)
  | _ => none

def Request.ofLetter? : Char → Option Request
  | 'o' => some (.setting .output)
  | 'c' => some (.setting .config)
  | 'h' => some (.information .help)
  | 'V' => some (.information .version)
  | _ => none

inductive Word where
  | plain
  /-- After it every word is plain. -/
  | endOfOptions
  | long (name : String) (value : Option String)
  /-- One letter with what follows it at once. -/
  | short (letter : Char) (rest : List Char)
  deriving DecidableEq, Repr

def Word.ofChars : List Char → Word
  | ['-', '-'] => .endOfOptions
  | '-' :: '-' :: rest =>
    .long (String.ofList (rest.takeWhile (· != '=')))
      ((rest.dropWhile (· != '=')).tail?.map String.ofList)
  | '-' :: letter :: rest => .short letter rest
  | _ => .plain

/-- Words read so far: options with their values, one that may still wait for its value, and the
drawing. -/
structure Progress where
  given : List (Setting × String)
  pending : Option (Setting × Option String)
  input : Option String
  onlyPlain : Bool

namespace Progress

def start : Progress := ⟨[], none, none, false⟩

def give (p : Progress) (s : Setting) (value : String) : Except Usage Progress :=
  if (p.given.lookup s).isSome then .error .repeatedOption
  else .ok { p with given := (s, value) :: p.given, pending := none }

/-- Takes in an option whose value cannot come any more. -/
def settle (p : Progress) : Except Usage Progress :=
  match p.pending with
  | none => .ok p
  | some (_, none) => .error .missingValue
  | some (s, some value) => p.give s value

def takeInput (p : Progress) (word : String) : Except Usage Progress :=
  if p.input.isSome then .error .unknownArgument
  else p.settle.map fun p => { p with input := some word }

def takeRequest (p : Progress) (request : Option Request) (attached : Option String) :
    Except Usage Progress :=
  match request, attached with
  | none, _ => .error .unknownArgument
  | some (.setting s), none => p.settle.map fun p => { p with pending := some (s, none) }
  | some (.setting s), some value => p.settle.bind fun p => p.give s value
  | some (.information u), none => p.settle.bind fun _ => .error u
  | some (.information _), some _ => .error .unneededValue

/-- What follows the letter of an option is its value, perhaps after an equals sign. -/
def takeLetter (p : Progress) (letter : Char) (rest : List Char) : Except Usage Progress :=
  match Request.ofLetter? letter, rest with
  | some (.setting s), '=' :: value => p.takeRequest (some (.setting s)) (String.ofList value)
  | some (.setting s), c :: value => p.takeRequest (some (.setting s)) (String.ofList (c :: value))
  | request, _ => p.takeRequest request none

def take (p : Progress) (word : String) : Except Usage Progress :=
  match if p.onlyPlain then .plain else Word.ofChars word.toList with
  | .endOfOptions => .ok { p with onlyPlain := true }
  | .long name value => p.takeRequest (Request.ofName? name) value
  | .short letter rest => p.takeLetter letter rest
  | .plain =>
    match p.pending with
    | some (s, none) =>
      if p.onlyPlain then p.takeInput word else .ok { p with pending := some (s, some word) }
    | _ => p.takeInput word

end Progress

end Command

structure Command where
  input : String
  output : String
  config : Option String
  logLevel : String
  deriving DecidableEq, Repr

namespace Command

def ofWords (words : List String) : Except Usage Command := do
  let p ← words.foldlM Progress.take Progress.start
  let p ← p.settle
  match p.input with
  | none => throw .missingInput
  | some input =>
    pure {
      input := input
      output := (p.given.lookup .output).getD "out.svg"
      config := p.given.lookup .config
      logLevel := (p.given.lookup .logLevel).getD "info" }

end Command

end Linework
