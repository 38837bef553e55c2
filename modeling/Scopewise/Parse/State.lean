import Scopewise.Diagnostic
import Scopewise.Scope.Table

namespace Scopewise.Parse

/-- `line` is one more than the number of newlines stepped over, and `depth` the number of
expressions and blocks being parsed; `peak` is the highest value that `depth` has had. -/
structure State where
  rest : List Token
  file : String
  line : UInt32 := 1
  scopes : Scope.Table := {}
  depth : Nat := 0
  peak : Nat := 0
  journal : Array Event := #[]
deriving Inhabited

/-- Why a parse stopped, and how many levels were open at that point. -/
structure Failure where
  diagnostic : Diagnostic
  depth : Nat
deriving DecidableEq, Repr, Inhabited

/-- A move that fails keeps what it has done so far: tokens it took stay taken, scopes it entered
stay open. -/
abbrev Parser := EStateM Failure State

namespace State

def position (state : State) : Position :=
  ⟨state.line, state.file⟩

def skipNewlines (state : State) : State :=
  { state with
    rest := state.rest.dropWhile (·.kind = .newline)
    line := state.line + (state.rest.takeWhile (·.kind = .newline)).length.toUInt32 }

def descend (state : State) : State :=
  { state with depth := state.depth + 1, peak := max state.peak (state.depth + 1) }

/-- Leaving a level that was never entered changes nothing. -/
def ascend (state : State) : State :=
  { state with depth := state.depth - 1 }

end State

def failAt {α : Type} (fault : Fault) (position : Position) : Parser α := do
  throw ⟨⟨fault, position⟩, (← get).depth⟩

/-- Reports a fault where the parse stands, as opposed to where a token stands. -/
def failHere {α : Type} (fault : Fault) : Parser α := do
  failAt fault (← get).position

/-- The next token that is not a newline, left in place. Newlines are layout: whatever looks at the
next token steps over them first and counts them. -/
def peek : Parser (Option Token) := do
  modify State.skipNewlines
  return (← get).rest.head?

def peekKind : Parser (Option Token.Kind) := do
  return (← peek).map (·.kind)

def advance : Parser Token := do
  match ← peek with
  | some token =>
    modify fun state => { state with rest := state.rest.tail }
    return token
  | none => failHere (.unexpectedEnd "more input")

/-- Fails at the next token, or at the end of the input, for want of what `expected` describes. -/
def unexpected {α : Type} (expected : String) : Parser α := do
  match ← peek with
  | some token => failAt (.expectedToken expected token.value) token.position
  | none => failHere (.unexpectedEnd expected)

def expectNamed (kind : Token.Kind) (expected : String) : Parser Token := do
  if (← peekKind) = some kind then advance else unexpected expected

def expect (kind : Token.Kind) : Parser Token :=
  expectNamed kind kind.describe

/-- Changes the scope table and writes the change to the journal. -/
def change (change : Scope.Change) : Parser Unit := do
  let table := (← get).scopes
  modify fun state => { state with journal := state.journal ++ table.events change }
  match table.after? change with
  | some next => modify fun state => { state with scopes := next }
  | none => failHere .scopeUnderflow

/-- Opens a level of nesting, unless `limit` levels are open already. -/
def descend (limit : Option Nat) : Parser Unit := do
  match limit with
  | none => modify State.descend
  | some bound =>
    if (← get).depth < bound then modify State.descend
    else failHere (.nestingTooDeep bound)

def ascend : Parser Unit :=
  modify State.ascend

/-- Runs `body` one level deeper; the level is closed whether `body` succeeds or fails. -/
def nested {α : Type} (limit : Option Nat) (body : Parser α) : Parser α := do
  descend limit
  fun state =>
    match body state with
    | .ok a state => .ok a state.ascend
    | .error e state => .error e state.ascend

end Scopewise.Parse
