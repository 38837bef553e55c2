import Scopewise.Parse.Stmt
import Scopewise.Token.Scan

namespace Scopewise.Parse

/-- Functions that can be called without being declared. -/
def builtins : List String :=
  ["echo"]

/-- The head of a loop outside of all blocks, where no brace can be closed. -/
def untilEnd (more : Parser (List Stmt)) : Parser (List Stmt) :=
  stmtLoop (return []) (failHere .unmatchedBrace) more

def topLevel (stmt : Parser (Option Stmt)) : Nat → Parser (List Stmt)
  | 0 => return []
  | n + 1 => untilEnd (turn stmt (topLevel stmt n))

/-- The statements of a program, in a scope of their own. -/
def programOf (body : Parser (List Stmt)) : Parser (List Stmt) := do
  change .enter
  builtins.forM fun name => change (.function name)
  let body ← body
  change .exit
  modify fun state => { state with journal := state.journal.push (.parsed body.length) }
  return body

/-- A program of at most `n` tokens. -/
def program (rules : Rules) (n : Nat) : Parser (List Stmt) :=
  programOf (topLevel (statement rules n) n)

/-- A parse of a program from its start, with the state it ends in. -/
def run (rules : Rules) (tokens : List Token) (file : String) :
    EStateM.Result Failure State (List Stmt) :=
  program rules tokens.length { rest := tokens, file }

def outcome {α : Type} : EStateM.Result Failure State α → Except Diagnostic α
  | .ok value _ => .ok value
  | .error failure _ => .error failure.diagnostic

def parse (tokens : List Token) (file : String) : Except Diagnostic (List Stmt) :=
  outcome (run .standard tokens file)

def parseSource (source file : String) : Except Diagnostic (List Stmt) := do
  parse (← Token.tokenize source (some file)) file

end Scopewise.Parse
