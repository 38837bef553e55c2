import Scopewise.Scope.Basic
import Scopewise.Token.Basic

namespace Scopewise

/-- What a run records in its journal. -/
inductive Event
  | token (read : Token)
  | entered (depth : Nat)
  | exited (depth : Nat)
  | functionDeclared (name : String)
  | variableDeclared (name : String) (mutability : Mutability)
  | variableShadowed (name : String) (old new : Mutability)
  | parsed (statements : Nat)
deriving DecidableEq, Repr, Inhabited

/-- The event as a line of the journal: its level, then its text. -/
def Event.describe : Event → String
  | .token read =>
    "TRACE " ++ read.position.file ++ ":" ++ toString read.line.toNat ++ " " ++
      read.category.describe ++ " " ++ Text.quote read.value
  | .entered depth => "DEBUG entered scope at depth " ++ toString depth
  | .exited depth => "DEBUG exited scope, depth now " ++ toString depth
  | .functionDeclared name => "DEBUG declaring function `" ++ name ++ "`"
  | .variableDeclared name mutability =>
    "DEBUG declaring " ++ mutability.describe ++ " variable `" ++ name ++ "`"
  | .variableShadowed name old new =>
    "DEBUG `" ++ name ++ "` shadows " ++ old.describe ++ " binding as " ++ new.describe
  | .parsed statements => "DEBUG parsed " ++ toString statements ++ " top-level statements"

end Scopewise
