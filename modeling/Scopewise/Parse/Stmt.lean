import Scopewise.Parse.Expr

namespace Scopewise.Parse

/-- A name that the innermost scope has not declared as a variable. -/
def freshVariable (expected : String) : Parser String := do
  let token ← expectNamed .identifier expected
  if (← get).scopes.hasLocalVariable token.value then
    failAt (.variableRedeclared token.value) token.position
  else
    return token.value

def freshFunction : Parser String := do
  let token ← expectNamed .identifier "function name"
  if (← get).scopes.hasLocalFunction token.value then
    failAt (.functionRedeclared token.value) token.position
  else
    return token.value

def paramType : Parser String := do
  return (← expectNamed .identifier "parameter type").value

def returnType : Parser ReturnType := do
  let token ← expectNamed .identifier "return type"
  match ReturnType.ofName? token.value with
  | some type => return type
  | none => failAt (.unknownReturnType token.value) token.position

/-- The leading token is taken as it is; any word but `let` makes the binding immutable. The name is
in scope only behind its value. -/
def binding (value : Parser Expr) : Parser Stmt := do
  let lead ← advance
  let mutability : Mutability := if lead.isWord "let" then .mutable else .immutable
  let name ← freshVariable "variable name"
  discard (expect .assignment)
  let value ← value
  discard (expect .semicolon)
  change (.variable name mutability)
  return .binding mutability name value

def returning (value : Parser Expr) : Parser Stmt := do
  discard advance
  let value ← value
  discard (expect .semicolon)
  return .returning value

/-- A parameter is an immutable variable of the function's scope. -/
def param : Parser Param := do
  let name ← freshVariable "parameter name"
  discard (expect .colon)
  let type ← paramType
  change (.variable name .immutable)
  return ⟨name, type⟩

/-- One or more parameters with commas between them, and the parenthesis that closes them. -/
def paramList : Nat → Parser (List Param)
  | 0 => unexpected "parameter name"
  | n + 1 => do
    let first ← param
    separated first (paramList n)

def params (n : Nat) : Parser (List Param) :=
  enclosed (paramList n)

/-- A statement and the turns of the loop behind it; one that yields none leaves no trace. -/
def turn (stmt : Parser (Option Stmt)) (loop : Parser (List Stmt)) : Parser (List Stmt) := do
  match ← stmt with
  | none => loop
  | some first => return first :: (← loop)

/-- The head of a loop over statements, which ends with the input and at a closing brace. -/
def stmtLoop (ended closed more : Parser (List Stmt)) : Parser (List Stmt) := do
  match ← peekKind with
  | none => ended
  | some .closeCurly => closed
  | some _ => more

/-- The head of a loop in a block, which leaves the closing brace in place. -/
def untilBrace (more : Parser (List Stmt)) : Parser (List Stmt) :=
  stmtLoop (unexpected "'\x7d'") (return []) more

def blockBody (stmt : Parser (Option Stmt)) : Nat → Parser (List Stmt)
  | 0 => unexpected "'\x7d'"
  | n + 1 => untilBrace (turn stmt (blockBody stmt n))

/-- A body in braces, one level deeper. -/
def blockOf (limit : Option Nat) (body : Parser (List Stmt)) : Parser (List Stmt) := do
  discard (expect .openCurly)
  let body ← nested limit body
  discard (expect .closeCurly)
  return body

def block (limit : Option Nat) (n : Nat) (stmt : Parser (Option Stmt)) : Parser (List Stmt) :=
  blockOf limit (blockBody stmt n)

/-- A function by the parsers of its parameters and of its body. Its name is in scope already there,
and what is declared there ends with the body. -/
def functionOf (params : Parser (List Param)) (body : Parser (List Stmt)) : Parser Stmt := do
  discard advance
  let name ← freshFunction
  change (.function name)
  change .enter
  let params ← params
  discard (expect .colon)
  let type ← returnType
  let body ← body
  discard (expect .semicolon)
  change .exit
  return .function name params type body

def function (n : Nat) (body : Parser (List Stmt)) : Parser Stmt :=
  functionOf (params n) body

/-- A statement by the rule of its keyword, by the parsers of a value and of a function. -/
def StmtRule.parseOf (value : Parser Expr) (function : Parser Stmt) : StmtRule → Parser Stmt
  | .function => function
  | .binding => Parse.binding value
  | .returning => Parse.returning value

/-- A statement by the rule of its keyword, with `stmt` for the statements inside it. -/
def StmtRule.parse (rules : Rules) (n : Nat) (stmt : Parser (Option Stmt)) :
    StmtRule → Parser Stmt :=
  StmtRule.parseOf (expression rules n .lowest) (Parse.function n (block rules.limit n stmt))

/-- A statement by the parsers of a value and of a function. A stray semicolon is taken and yields
none; so does a closing brace, which is left for the block around it. -/
def statementOf (rules : Rules) (value : Parser Expr) (function : Parser Stmt) :
    Parser (Option Stmt) := do
  match ← peek with
  | none => failHere (.unexpectedEnd "statement")
  | some token =>
    match token.kind with
    | .closeCurly => return none
    | .semicolon =>
      discard advance
      return none
    | .identifier =>
      match rules.stmt? token.value with
      | some rule => return some (← rule.parseOf value function)
      | none => return some (.bare (← value))
    | _ => unexpectedToken token

/-- A statement of a text that has at most `n` tokens left. -/
def statement (rules : Rules) : Nat → Parser (Option Stmt)
  | 0 => failHere (.unexpectedEnd "statement")
  | n + 1 =>
    statementOf rules (expression rules (n + 1) .lowest)
      (function (n + 1) (block rules.limit (n + 1) (statement rules n)))

end Scopewise.Parse
