/-
  MemoryShell/CommandLine.lean
  ============================
  **The command line of the program: its arguments, and what it writes.**

  With lines among the arguments the program runs them and ends; without, it reads lines, each after
  a prompt.  What it writes depends only on the arguments, the files of settings and the lines.
-/
import MemoryShell.Display.Ansi
import MemoryShell.Options
import MemoryShell.Session

namespace MemoryShell.CommandLine

/-! ### Arguments -/

/-- What the arguments say. -/
structure Arguments where
  lines : List String := []
  config : Option String := none
  noNetwork : Bool := false
  asMarkup : Bool := false
  isVerbose : Bool := false
deriving DecidableEq, Repr

/-- What the arguments come to. -/
inductive Usage where
  | run (a : Arguments)
  | help
  | version
  | refused
deriving DecidableEq, Repr

/-- Options that have a value. -/
inductive ValueOption where
  | line
  | config
deriving DecidableEq, Repr

/-- Options that stand alone. -/
inductive Flag where
  | noNetwork
  | asMarkup
  | verbose
  | help
  | version
deriving DecidableEq, Repr

/-- What one argument comes to: it ends the reading, or it goes on, perhaps with an option whose
    value is still missing. -/
inductive Step where
  | stop (u : Usage)
  | next (a : Arguments) (waiting : Option ValueOption)

/-- Give an option its value.  Lines add up; only one file of settings may be named, and its name
    may not be empty. -/
def store (a : Arguments) (o : ValueOption) (value : String) : Step :=
  match o with
  | .line => .next { a with lines := a.lines ++ [value] } none
  | .config =>
    if a.config.isSome || value.isEmpty then .stop .refused
    else .next { a with config := some value } none

/-- Set a flag that is not set yet. -/
def raise (a : Arguments) (f : Flag) : Step :=
  match f with
  | .noNetwork => if a.noNetwork then .stop .refused else .next { a with noNetwork := true } none
  | .asMarkup => if a.asMarkup then .stop .refused else .next { a with asMarkup := true } none
  | .verbose => if a.isVerbose then .stop .refused else .next { a with isVerbose := true } none
  | .help => .stop .help
  | .version => .stop .version

def flag? (name : String) : Option Flag :=
  match name with
  | "no-network" => some .noNetwork
  | "html" => some .asMarkup
  | "verbose" => some .verbose
  | "help" => some .help
  | "version" => some .version
  | _ => none

/-- Read an argument that begins with two dashes, without them. -/
def readLong (a : Arguments) (text : List Char) : Step :=
  let (name, value) :=
    match Text.cutAt '=' text with
    | some (name, value) => (String.ofList name, some (String.ofList value))
    | none => (String.ofList text, none)
  match flag? name, value with
  | some f, none => raise a f
  | some _, some _ => .stop .refused
  | none, value =>
    if name = "config" then
      match value with
      | some v => store a .config v
      | none => .next a (some .config)
    else .stop .refused

/-- Read an argument that begins with one dash, without it: short flags in a row, of which one with
    a value is the last. -/
def readShort (a : Arguments) : List Char → Step
  | [] => .next a none
  | c :: rest =>
    match c with
    | 'c' =>
      match rest with
      | [] => .next a (some .line)
      | '=' :: value => store a .line (String.ofList value)
      | value => store a .line (String.ofList value)
    | 'v' =>
      match raise a .verbose with
      | .next a _ => readShort a rest
      | stop => stop
    | 'h' => .stop .help
    | 'V' => .stop .version
    | _ => .stop .refused

/-- Whether an argument can be the value of the option before it. -/
def isValue (arg : String) : Bool := arg = "-" || !Curl.isOption arg

def readArgument (a : Arguments) (waiting : Option ValueOption) (arg : String) : Step :=
  match waiting, arg.toList with
  | some o, _ => if isValue arg then store a o arg else .stop .refused
  | none, '-' :: '-' :: text => readLong a text
  | none, '-' :: c :: text => readShort a (c :: text)
  | none, _ => .stop .refused

/-- Read arguments.  Nothing may stand behind the mark that ends the options. -/
def readFrom (a : Arguments) (waiting : Option ValueOption) : List String → Usage
  | [] => if waiting.isSome then .refused else .run a
  | arg :: rest =>
    if waiting.isNone && arg = "--" then if rest.isEmpty then .run a else .refused
    else
      match readArgument a waiting arg with
      | .stop u => u
      | .next a waiting => readFrom a waiting rest

def Usage.ofArguments (args : List String) : Usage := readFrom {} none args

def programName : String := "shellbox"

/-- The line that says how to call the program. -/
def usageText : String := "Usage: " ++ programName ++ " [OPTIONS]"

def helpText : String :=
  "An in-memory Unix-like shell with a JavaScript sandbox\n\n" ++
  usageText ++ "\n\n" ++
  "Options:\n" ++
  "  -c <LINE>            Run a command line and exit (may be repeated)\n" ++
  "      --config <FILE>  TOML file with session options\n" ++
  "      --no-network     Disable HTTP access for curl\n" ++
  "      --html           Print raw HTML fragments instead of terminal colors\n" ++
  "  -v, --verbose        Enable debug logging\n" ++
  "  -h, --help           Print help\n" ++
  "  -V, --version        Print version\n"

def versionText : String := programName ++ " 0.1.0\n"

/-! ### Writing what the display shows -/

/-- A line end behind a text. -/
def withNewline (text : String) : String := text ++ "\n"

/-- What is written for an event.  Typed lines are only written if nobody has seen them typed. -/
def eventText (asMarkup echoes : Bool) : DisplayEvent → String
  | .clear => if asMarkup then "" else Ansi.clearScreen
  | .line line =>
    if line.kind = .prompt ∧ echoes = false then ""
    else withNewline (if asMarkup then line.render else Ansi.renderLine line)

/-- Run a line, let all requests come back, and write what the display shows of it. -/
def respond (asMarkup echoes : Bool) (s : Session) (line : String) : String × Session :=
  let s := (s.submit line).2.settle
  let (events, display) := s.display.takeEvents
  (String.join (events.map (eventText asMarkup echoes)), { s with display })

/-! ### Sessions -/

/-- The session for some options; without leave to use the network there is no collaborator. -/
def start (a : Arguments) (options : Options) (fetch : Option Fetch) : Session :=
  let network :=
    if options.network.isEnabled && !a.noNetwork then
      match fetch with
      | some fetch => Network.deferred fetch
      | none => .none
    else .none
  Session.new (if options.isSeeded then Tree.seeded else Tree.root) options.maxLines options.limits
    network

/-- What is written for lines that are given as arguments. -/
def runLines (asMarkup : Bool) : Session → List String → String
  | _, [] => ""
  | s, line :: rest =>
    let (text, s) := respond asMarkup true s line
    text ++ runLines asMarkup s rest

def prompt (s : Session) : String := s.tree.currentDir ++ " $ "

def respondTyped (asMarkup : Bool) (s : Session) (line : String) : String × Session :=
  respond asMarkup false s (Text.trimEnd line)

/-- What is written for lines that are typed, up to the prompt that nobody answers. -/
def converse (asMarkup : Bool) : Session → List String → String
  | s, [] => prompt s
  | s, line :: rest =>
    let (text, after) := respondTyped asMarkup s line
    prompt s ++ text ++ converse asMarkup after rest

def inputLines (input : String) : List String :=
  (Text.splitAfter ['\n'] input.toList).map String.ofList

/-! ### Whole runs -/

/-- What a run of the program writes, and the code that it ends with. -/
structure Transcript where
  output : String
  code : Nat
deriving DecidableEq, Repr

/-- The code of a run that was not given usable arguments. -/
def refusedCode : Nat := 2

/-- The code of a run whose file of settings is not usable. -/
def failedCode : Nat := 1

/-- The options that some arguments ask for, given the files that there are. -/
def optionsOf (a : Arguments) (file : String → Option String) : Except Options.LoadError Options :=
  match a.config with
  | some path => Options.load path (file path)
  | none => .ok {}

def run (args : List String) (file : String → Option String) (fetch : Option Fetch) (input : String) :
    Transcript :=
  match Usage.ofArguments args with
  | .help => ⟨helpText, 0⟩
  | .version => ⟨versionText, 0⟩
  | .refused => ⟨"", refusedCode⟩
  | .run a =>
    match optionsOf a file with
    | .error _ => ⟨"", failedCode⟩
    | .ok options =>
      let s := start a options fetch
      if a.lines.isEmpty then ⟨converse a.asMarkup s (inputLines input), 0⟩
      else ⟨runLines a.asMarkup s a.lines, 0⟩

end MemoryShell.CommandLine
