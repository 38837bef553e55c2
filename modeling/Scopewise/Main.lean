import Scopewise.Cli.Report

namespace Scopewise.Cli

/-- The text of a file on disk. -/
def readFile (path : String) : IO (Except ReadFault String) := do
  try
    let contents ← IO.FS.readBinFile path
    match String.fromUTF8? contents with
    | some text => return .ok text
    | none => return .error .notText
  catch e =>
    -- Opening a directory works and reading it does not, so a fault of type that names the path is
    -- that of a file on the way to it.
    match e with
    | .noFileOrDirectory .. => return .error .missing
    | .inappropriateType (some _) _ _ => return .error .notDirectory
    | .inappropriateType none _ _ => return .error .isDirectory
    | .permissionDenied .. => return .error .denied
    | .invalidArgument .. => return .error .nameTooLong
    | e => return .error (.other (toString e))

end Scopewise.Cli

def main (args : List String) : IO UInt32 := do
  let outcome ← Scopewise.Cli.run Scopewise.Cli.readFile args
  IO.print outcome.stdout
  IO.eprint outcome.stderr
  return outcome.exit
