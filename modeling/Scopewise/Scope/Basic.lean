import Scopewise.Scope.NameSet

namespace Scopewise

inductive Mutability
  | mutable
  | immutable
deriving DecidableEq, Repr, Inhabited

def Mutability.describe : Mutability → String
  | .mutable => "mutable"
  | .immutable => "immutable"

/-- Variables and functions have separate name spaces. The local sets hold what the scope declared
itself, as opposed to what it took over from the scope around it. -/
structure Scope where
  mutables : NameSet := ∅
  immutables : NameSet := ∅
  functions : NameSet := ∅
  localVariables : NameSet := ∅
  localFunctions : NameSet := ∅
deriving DecidableEq, Inhabited

namespace Scope

/-- A scope that sees what this one sees and has declared nothing yet. -/
def child (scope : Scope) : Scope :=
  { scope with localVariables := ∅, localFunctions := ∅ }

/-- The newest declaration of a name decides its mutability. -/
def declareVariable (scope : Scope) (name : String) : Mutability → Scope
  | .mutable =>
    { scope with
      mutables := scope.mutables.insert name
      immutables := scope.immutables.erase name
      localVariables := scope.localVariables.insert name }
  | .immutable =>
    { scope with
      mutables := scope.mutables.erase name
      immutables := scope.immutables.insert name
      localVariables := scope.localVariables.insert name }

def declareFunction (scope : Scope) (name : String) : Scope :=
  { scope with
    functions := scope.functions.insert name
    localFunctions := scope.localFunctions.insert name }

def hasVariable (scope : Scope) (name : String) : Bool :=
  scope.mutables.contains name || scope.immutables.contains name

def hasFunction (scope : Scope) (name : String) : Bool :=
  scope.functions.contains name

def hasLocalVariable (scope : Scope) (name : String) : Bool :=
  scope.localVariables.contains name

def hasLocalFunction (scope : Scope) (name : String) : Bool :=
  scope.localFunctions.contains name

def mutability? (scope : Scope) (name : String) : Option Mutability :=
  if scope.mutables.contains name then some .mutable
  else if scope.immutables.contains name then some .immutable
  else none

end Scope

end Scopewise
