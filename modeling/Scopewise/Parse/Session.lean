import Scopewise.Parse.Stmt

namespace Scopewise.Parse

inductive Command
  | addStandardRules
  | setPower (kind : Token.Kind) (power : BindingPower)
  | setOperand (kind : Token.Kind) (rule : OperandRule)
  | setKeyword (word : String) (rule : StmtRule)
  | lookup (kind : Token.Kind)
  | keywords
  | peek
  | peekKind
  | hasTokens
  | advance
  | expect (kind : Token.Kind)
  | expectNamed (kind : Token.Kind) (expected : String)
  | unexpected (expected : String)
  | position
  | descend (times : Nat)
  | ascend (times : Nat)
  | change (change : Scope.Change)
  | query (query : Scope.Query)
  | expression (power : BindingPower)
  | binary (left : Expr) (power : BindingPower)
  | operand (rule : OperandRule)
  | statement
  | block
  | keyword (rule : StmtRule)
  | returnType
  | paramType
deriving DecidableEq

inductive Reply
  | done
  | rules (operand? : Option OperandRule) (power? : Option BindingPower)
  | words (words : NameSet)
  | token (token? : Option Token)
  | kind (kind? : Option Token.Kind)
  | holds (value : Bool)
  | position (position : Position)
  | descended (levels : Nat) (failure? : Option Diagnostic)
  | answer (answer : Scope.Table.Answer)
  | expr (expr : Expr)
  | stmt (stmt? : Option Stmt)
  | stmts (stmts : List Stmt)
  | returnType (type : ReturnType)
  | text (text : String)
deriving DecidableEq

/-- Opens levels until `times` are open or one cannot be; answers how many and why it stopped. -/
def descendTimes (limit : Option Nat) : Nat → Parser (Nat × Option Diagnostic)
  | 0 => return (0, none)
  | times + 1 => fun state =>
    match descend limit state with
    | .ok _ state => ((descendTimes limit times).map fun (n, stop) => (n + 1, stop)) state
    | .error failure state => .ok (0, some failure.diagnostic) state

namespace Command

/-- The tables after the command. -/
def adjust (rules : Rules) : Command → Rules
  | .addStandardRules => rules.addStandard
  | .setPower kind power => rules.setPower kind power
  | .setOperand kind rule => rules.setOperand kind rule
  | .setKeyword word rule => rules.setKeyword word rule
  | _ => rules

/-- The command's move on a state that has at most `n` tokens left. -/
def run (rules : Rules) (n : Nat) : Command → Parser Reply
  | .addStandardRules | .setPower .. | .setOperand .. | .setKeyword .. => return .done
  | .lookup kind => return .rules (rules.operand? kind) (rules.power? kind)
  | .keywords => return .words (.ofList (rules.keywords.map (·.1)))
  | .peek => return .token (← Parse.peek)
  | .peekKind => return .kind (← Parse.peekKind)
  | .hasTokens => return .holds (← Parse.peek).isSome
  | .advance => return .token (← Parse.advance)
  | .expect kind => return .token (← Parse.expect kind)
  | .expectNamed kind expected => return .token (← Parse.expectNamed kind expected)
  | .unexpected expected => Parse.unexpected expected
  | .position => return .position (← get).position
  | .descend times => do
    let (levels, failure?) ← descendTimes rules.limit times
    return .descended levels failure?
  | .ascend times => do
    modify (Nat.repeat State.ascend times)
    return .done
  | .change c => do
    Parse.change c
    return .done
  | .query q => return .answer ((← get).scopes.answer q)
  | .expression power => return .expr (← Parse.expression rules n power)
  | .binary left power => return .expr (← Parse.binary (Parse.expression rules n) left power)
  | .operand rule => return .expr (← rule.parse n (Parse.expression rules n))
  | .statement => return .stmt (← Parse.statement rules n)
  | .block => return .stmts (← Parse.block rules.limit n (Parse.statement rules n))
  | .keyword rule => return .stmt (some (← rule.parse rules n (Parse.statement rules n)))
  | .returnType => return .returnType (← Parse.returnType)
  | .paramType => return .text (← Parse.paramType)

end Command

/-- The tables and the state of a parse, between two commands. -/
structure Session where
  rules : Rules
  state : State

namespace Session

/-- A session at the start of some tokens, without tables and scopes. -/
def start (tokens : List Token) (file : String) : Session where
  rules := .empty
  state := { rest := tokens, file }

/-- A command that fails leaves the session in the state that the failure left. -/
def step (session : Session) (command : Command) : Except Diagnostic Reply × Session :=
  match command.run session.rules session.state.rest.length session.state with
  | .ok reply state => (.ok reply, ⟨command.adjust session.rules, state⟩)
  | .error failure state => (.error failure.diagnostic, ⟨session.rules, state⟩)

end Session

end Scopewise.Parse
