namespace Scopewise.Cli

/-- What to print of a file that has no fault. -/
inductive Emit
  | tree
  | json
  | tokens
deriving DecidableEq, Repr, Inhabited

namespace Emit

def name : Emit → String
  | .tree => "ast"
  | .json => "json"
  | .tokens => "tokens"

def ofName? (name : String) : Option Emit :=
  [tree, json, tokens].find? (·.name = name)

end Emit

inductive Request
  | check (path : String) (emit : Emit)
  | version
  | help
deriving DecidableEq, Repr

/-- One argument by its form. -/
inductive Arg
  | path (path : String)
  | emit (value? : Option String)
  | version
  | help
  | endOfOptions
  | malformed
deriving DecidableEq, Repr

namespace Arg

def ofLongName (name : List Char) : Arg :=
  if name = [] then .endOfOptions
  else if name = "version".toList then .version
  else if name = "help".toList then .help
  else if name = "emit".toList then .emit none
  else if "emit=".toList <+: name then .emit (some (String.ofList (name.drop 5)))
  else .malformed

/-- A dash alone is a path. A short option takes effect whatever is attached to it. -/
def ofText (text : String) : Arg :=
  match text.toList with
  | [] => .malformed
  | '-' :: '-' :: name => ofLongName name
  | '-' :: 'V' :: _ => .version
  | '-' :: 'h' :: _ => .help
  | '-' :: _ :: _ => .malformed
  | _ => .path text

end Arg

namespace Request

/-- Reads the rest of the arguments after `emit?` and `path?` were given. There is one path at most,
`--emit` stands once at most, and after `--` every argument is a path. -/
def read? (emit? : Option Emit) (path? : Option String) : List String → Option Request
  | [] => path?.map (.check · (emit?.getD .tree))
  | arg :: args =>
    match Arg.ofText arg, args with
    | .path path, args => if path? = none then read? emit? (some path) args else none
    | .emit (some value), args =>
      match emit?, Emit.ofName? value with
      | none, some emit => read? (some emit) path? args
      | _, _ => none
    | .emit none, value :: args =>
      match emit?, Emit.ofName? value with
      | none, some emit => read? (some emit) path? args
      | _, _ => none
    | .emit none, [] => none
    | .version, _ => some .version
    | .help, _ => some .help
    | .endOfOptions, args =>
      match path?, args with
      | some path, [] | none, [path] =>
        if path = "" then none else some (.check path (emit?.getD .tree))
      | _, _ => none
    | .malformed, _ => none

def ofArgs? (args : List String) : Option Request :=
  read? none none args

example : ofArgs? ["a", "--emit=json"] = some (.check "a" .json) := by decide +kernel

example : ofArgs? ["--emit", "tokens", "--", "-a"] = some (.check "-a" .tokens) := by
  decide +kernel

example : ofArgs? ["--emit", "ast", "--emit", "ast", "a"] = none := by decide +kernel

end Request

end Scopewise.Cli
