import Scopewise.Cli.Args
import Scopewise.Parse.Program
import Scopewise.Text.Blank
import Scopewise.Tree.Json
import Scopewise.Tree.Outline

namespace Scopewise

/-- A line with nothing but the bar, in the column where a bar divides a number of so many digits
from the text. -/
def Diagnostic.bar (digits : Nat) : String :=
  String.ofList (List.replicate (digits + 2) ' ' ++ ['|', '\n'])

/-- The diagnostic with the line it points at, if the source has that line, and the advice. -/
def Diagnostic.report (d : Diagnostic) (source : String) : String :=
  let number := toString d.position.line.toNat
  let snippet :=
    match Source.line? source d.position.line with
    | some text =>
      bar number.length ++ " " ++ number ++ " | " ++ Text.trimEnd text ++ "\n" ++ bar number.length
    | none => ""
  let help :=
    match d.fault.tip? with
    | some tip => "help: " ++ tip ++ "\n"
    | none => ""
  d.message ++ "\n" ++ snippet ++ help

namespace Cli

structure Outcome where
  exit : UInt32 := 0
  stdout : String := ""
  stderr : String := ""
deriving DecidableEq, Repr

/-- The label of a file: the last name in its path, or the path if it ends in no name. -/
def label (path : String) : String :=
  match ((path.splitOn "/").filter fun name => name ≠ "" ∧ name ≠ ".").getLast? with
  | some name => if name = ".." then path else name
  | none => path

/-- What is printed of a source text labelled `file`. Listing the tokens does not parse them. -/
def check (file source : String) (emit : Emit) : Except Diagnostic String := do
  let tokens ← Token.tokenize source (some file)
  match emit with
  | .tokens => return String.join (tokens.map (·.listing ++ "\n"))
  | .json => return (Stmt.programToJson (← Parse.parse tokens file)).pretty ++ "\n"
  | .tree => return (Stmt.programToOutline (← Parse.parse tokens file)).indented ++ "\n"

/-- Why a file could not be read as text. -/
inductive ReadFault
  | missing
  | notDirectory
  | isDirectory
  | denied
  | nameTooLong
  | notText
  | other (reason : String)
deriving DecidableEq, Repr

def ReadFault.reason : ReadFault → String
  | .missing => "No such file or directory (os error 2)"
  | .notDirectory => "Not a directory (os error 20)"
  | .isDirectory => "Is a directory (os error 21)"
  | .denied => "Permission denied (os error 13)"
  | .nameTooLong => "File name too long (os error 36)"
  | .notText => "stream did not contain valid UTF-8"
  | .other reason => reason

def Outcome.ofContents (path : String) (emit : Emit) : Except ReadFault String → Outcome
  | .error fault =>
    { exit := 1
      stderr := "Error: Failed to read " ++ path ++ "\n\nCaused by:\n    " ++ fault.reason ++ "\n" }
  | .ok source =>
    match check (label path) source emit with
    | .ok text => { stdout := text }
    | .error d => { exit := 1, stderr := d.report source }

def usage : String :=
  "Usage: scopec [OPTIONS] <FILE>\n"

def help : String :=
  "Front end for a small statically scoped expression language\n\n" ++ usage ++
    "\nArguments:\n  <FILE>  Source file to check\n\nOptions:\n" ++
    "      --emit <EMIT>  What to print once the file parses [default: ast] " ++
    "[possible values: ast, json, tokens]\n" ++
    "  -h, --help         Print help\n  -V, --version      Print version\n"

/-- The outcome for some arguments, where `read` gives the contents of a file. -/
def run {m : Type → Type} [Monad m] (read : String → m (Except ReadFault String))
    (args : List String) : m Outcome := do
  match Request.ofArgs? args with
  | none => return { exit := 2, stderr := "error: invalid arguments\n\n" ++ usage }
  | some .version => return { stdout := "scopec 0.1.0\n" }
  | some .help => return { stdout := help }
  | some (.check path emit) => return .ofContents path emit (← read path)

end Cli

end Scopewise
