import Scopewise.Parse.Rules
import Scopewise.Parse.State
import Scopewise.Text.Decimal
import Scopewise.Tree.Basic

namespace Scopewise.Parse

def unexpectedToken {α : Type} (token : Token) : Parser α :=
  failAt (.unexpectedToken token.value) token.position

def literal : Parser Expr := do
  let token ← expect .integer
  match Text.readInt64? token.value with
  | some value => return .integer value
  | none => failAt (.integerOutOfRange token.value) token.position

/-- What follows an element of a list: a comma and the rest, or the parenthesis that closes it. -/
def separated {α : Type} (first : α) (list : Parser (List α)) : Parser (List α) := do
  match ← peekKind with
  | some .comma =>
    discard advance
    return first :: (← list)
  | some .closeParen =>
    discard advance
    return [first]
  | _ => unexpected "',' or ')'"

/-- A list in parentheses, with `list` for one that is not empty and the parenthesis behind it. -/
def enclosed {α : Type} (list : Parser (List α)) : Parser (List α) := do
  discard (expect .openParen)
  if (← peekKind) = some .closeParen then
    discard advance
    return []
  else
    list

/-- One or more expressions with commas between them, and the parenthesis that closes them. -/
def argumentList (sub : Parser Expr) : Nat → Parser (List Expr)
  | 0 => do
    discard sub
    unexpected "',' or ')'"
  | n + 1 => do
    let first ← sub
    separated first (argumentList sub n)

def arguments (n : Nat) (sub : Parser Expr) : Parser (List Expr) :=
  enclosed (argumentList sub n)

/-- A name is a call if a parenthesis follows it, otherwise a variable. -/
def referenceOf (arguments : Parser (List Expr)) : Parser Expr := do
  let token ← expect .identifier
  if (← peekKind) = some .openParen then
    if (← get).scopes.hasFunction token.value then
      return .call token.value (← arguments)
    else
      failAt (.functionUndeclared token.value) token.position
  else if (← get).scopes.hasVariable token.value then
    return .variable token.value
  else
    failAt (.variableUndeclared token.value) token.position

def reference (n : Nat) (sub : Parser Expr) : Parser Expr :=
  referenceOf (arguments n sub)

/-- A sign and its operand; `stray` is for a token that is no sign. -/
def signedOr (stray : Token → Parser Expr) (sub : BindingPower → Parser Expr) : Parser Expr := do
  let token ← advance
  match PrefixOp.ofKind? token.kind with
  | some op => return .unary op (← sub .unary)
  | none => stray token

def signed (sub : BindingPower → Parser Expr) : Parser Expr :=
  signedOr unexpectedToken sub

def group (sub : Parser Expr) : Parser Expr := do
  discard (expect .openParen)
  let expr ← sub
  discard (expect .closeParen)
  return expr

def OperandRule.parse (n : Nat) (sub : BindingPower → Parser Expr) : OperandRule → Parser Expr
  | .literal => Parse.literal
  | .name => reference n (sub .lowest)
  | .sign => signed sub
  | .group => Parse.group (sub .lowest)

/-- An operand, with a parser for each rule. -/
def operandOf (rules : Rules) (parse : OperandRule → Parser Expr) : Parser Expr := do
  match ← peek with
  | none => failHere (.unexpectedEnd "expression")
  | some token =>
    match rules.operand? token.kind with
    | none => unexpectedToken token
    | some rule => parse rule

def operand (rules : Rules) (n : Nat) (sub : BindingPower → Parser Expr) : Parser Expr :=
  operandOf rules (OperandRule.parse n sub)

/-- An operator and its right operand, which takes in only operators that bind more tightly; `stray`
is for a token that is no operator. -/
def binaryOr (stray : Token → Parser Expr) (sub : BindingPower → Parser Expr) (left : Expr)
    (power : BindingPower) : Parser Expr := do
  let token ← advance
  match BinaryOp.ofKind? token.kind with
  | some op => return .binary op left (← sub power)
  | none => stray token

def binary (sub : BindingPower → Parser Expr) (left : Expr) (power : BindingPower) : Parser Expr :=
  binaryOr unexpectedToken sub left power

/-- Goes on with `more` if an operator above `floor` is ahead, and ends with `left` otherwise. -/
def climb (rules : Rules) (floor : BindingPower) (left : Expr)
    (more : BindingPower → Parser Expr) : Parser Expr := do
  match (← peekKind).bind rules.power? with
  | none => return left
  | some power => if power ≤ floor then return left else more power

/-- The operators above `floor`, each taking what stands left of it. -/
def operators (rules : Rules) (sub : BindingPower → Parser Expr) (floor : BindingPower) :
    Nat → Expr → Parser Expr
  | 0, left => return left
  | n + 1, left => climb rules floor left fun power => do
    operators rules sub floor n (← binary sub left power)

/-- An operand and the operators behind it, one level deeper. -/
def expressionOf (limit : Option Nat) (operand : Parser Expr) (operators : Expr → Parser Expr) :
    Parser Expr :=
  nested limit do
    let left ← operand
    operators left

/-- An expression of a text that has at most `n` tokens left. Every nested expression stands behind
a token of its own; at zero the input has ended, and the answer is that of the end of the input. -/
def expression (rules : Rules) : Nat → BindingPower → Parser Expr
  | 0, _ => nested rules.limit (failHere (.unexpectedEnd "expression"))
  | n + 1, floor =>
    expressionOf rules.limit (operand rules n (expression rules n))
      (operators rules (expression rules n) floor n)

end Scopewise.Parse
