import Scopewise.Event

namespace Scopewise.Scope

/-- The open scopes, innermost first. A scope is entered with a copy of what the one around it sees,
so the innermost one alone answers every question, and only that one ever changes. -/
structure Table where
  scopes : List Scope := []
deriving DecidableEq, Inhabited

/-- What can be done to a table. All but entering needs an open scope. -/
inductive Change
  | enter
  | exit
  | variable (name : String) (mutability : Mutability)
  | function (name : String)
deriving DecidableEq, Repr

inductive Query
  | hasVariable (name : String)
  | hasFunction (name : String)
  | hasLocalVariable (name : String)
  | hasLocalFunction (name : String)
  | mutability (name : String)
  | depth
deriving DecidableEq, Repr

namespace Table

def current? (table : Table) : Option Scope :=
  table.scopes.head?

def depth (table : Table) : Nat :=
  table.scopes.length

/-- The table after a change, or nothing if there is no scope to change. -/
def after? (table : Table) : Change → Option Table
  | .enter =>
    match table.scopes with
    | [] => some ⟨[{}]⟩
    | scope :: outer => some ⟨scope.child :: scope :: outer⟩
  | .exit =>
    match table.scopes with
    | [] => none
    | _ :: outer => some ⟨outer⟩
  | .variable name mutability =>
    match table.scopes with
    | [] => none
    | scope :: outer => some ⟨scope.declareVariable name mutability :: outer⟩
  | .function name =>
    match table.scopes with
    | [] => none
    | scope :: outer => some ⟨scope.declareFunction name :: outer⟩

/-- What a change writes to the journal. A function is announced before it is known whether there is
a scope for it. -/
def events (table : Table) : Change → List Event
  | .enter => [.entered (table.depth + 1)]
  | .exit =>
    match table.scopes with
    | [] => []
    | _ :: outer => [.exited outer.length]
  | .variable name mutability =>
    match table.scopes with
    | [] => []
    | scope :: _ =>
      match scope.mutability? name with
      | some old => [.variableShadowed name old mutability]
      | none => [.variableDeclared name mutability]
  | .function name => [.functionDeclared name]

def hasVariable (table : Table) (name : String) : Bool :=
  table.current?.any (·.hasVariable name)

def hasFunction (table : Table) (name : String) : Bool :=
  table.current?.any (·.hasFunction name)

def hasLocalVariable (table : Table) (name : String) : Bool :=
  table.current?.any (·.hasLocalVariable name)

def hasLocalFunction (table : Table) (name : String) : Bool :=
  table.current?.any (·.hasLocalFunction name)

/-- The mutability of a name in the innermost scope: nothing without a scope, `some none` for a name
that is not declared. -/
def mutability? (table : Table) (name : String) : Option (Option Mutability) :=
  table.current?.map (·.mutability? name)

inductive Op
  | change (change : Change)
  | query (query : Query)
deriving DecidableEq, Repr

inductive Answer
  | done
  | left (scope : Scope)
  | underflow
  | holds (value : Bool)
  | mutability (value : Option (Option Mutability))
  | depth (value : Nat)
deriving DecidableEq

def answer (table : Table) : Query → Answer
  | .hasVariable name => .holds (table.hasVariable name)
  | .hasFunction name => .holds (table.hasFunction name)
  | .hasLocalVariable name => .holds (table.hasLocalVariable name)
  | .hasLocalFunction name => .holds (table.hasLocalFunction name)
  | .mutability name => .mutability (table.mutability? name)
  | .depth => .depth table.depth

/-- One operation. Leaving a scope answers with that scope; a change that fails leaves the table as
it was. -/
def step (table : Table) : Op → Answer × Table
  | .query query => (table.answer query, table)
  | .change change =>
    match table.after? change with
    | none => (.underflow, table)
    | some next =>
      match change, table.current? with
      | .exit, some scope => (.left scope, next)
      | _, _ => (.done, next)

/-- The answers to a sequence of operations, and the table they lead to. -/
def run (table : Table) : List Op → List Answer × Table
  | [] => ([], table)
  | op :: ops =>
    let (answer, next) := table.step op
    let (answers, last) := next.run ops
    (answer :: answers, last)

end Table

end Scopewise.Scope
