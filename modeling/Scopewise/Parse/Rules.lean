import Scopewise.Token.Basic

namespace Scopewise.Parse

inductive BindingPower
  | lowest
  | additive
  | multiplicative
  | unary
deriving DecidableEq, Repr, Inhabited

namespace BindingPower

def rank : BindingPower → Nat
  | .lowest => 0
  | .additive => 1
  | .multiplicative => 2
  | .unary => 3

instance : LE BindingPower where
  le a b := a.rank ≤ b.rank

instance (a b : BindingPower) : Decidable (a ≤ b) :=
  inferInstanceAs (Decidable (a.rank ≤ b.rank))

end BindingPower

/-- How an operand is read. -/
inductive OperandRule
  | literal
  | name
  | sign
  | group
deriving DecidableEq, Repr, Inhabited

/-- How a statement is read that begins with a keyword. -/
inductive StmtRule
  | function
  | binding
  | returning
deriving DecidableEq, Repr, Inhabited

/-- The tables that drive a parse: what begins an operand, what stands between operands and how
tightly it binds, and which words begin a statement. -/
structure Rules where
  operand? : Token.Kind → Option OperandRule
  power? : Token.Kind → Option BindingPower
  keywords : List (String × StmtRule)
  limit : Option Nat

namespace Rules

/-- The deepest nesting of expressions and blocks taken together. -/
def maxNesting : Nat := 256

def empty : Rules where
  operand? _ := none
  power? _ := none
  keywords := []
  limit := some maxNesting

/-- The newest entry for a keyword hides older ones. -/
def stmt? (rules : Rules) (word : String) : Option StmtRule :=
  rules.keywords.lookup word

def setOperand (rules : Rules) (kind : Token.Kind) (rule : OperandRule) : Rules :=
  { rules with operand? := fun k => if k = kind then some rule else rules.operand? k }

def setPower (rules : Rules) (kind : Token.Kind) (power : BindingPower) : Rules :=
  { rules with power? := fun k => if k = kind then some power else rules.power? k }

def setKeyword (rules : Rules) (word : String) (rule : StmtRule) : Rules :=
  { rules with keywords := (word, rule) :: rules.keywords }

/-- Adds the language's own entries. A sign can begin an operand and stand between two. -/
def addStandard (rules : Rules) : Rules :=
  rules
    |>.setPower .plus .additive
    |>.setPower .dash .additive
    |>.setPower .star .multiplicative
    |>.setPower .slash .multiplicative
    |>.setOperand .integer .literal
    |>.setOperand .identifier .name
    |>.setOperand .plus .sign
    |>.setOperand .dash .sign
    |>.setOperand .openParen .group
    |>.setKeyword "fn" .function
    |>.setKeyword "let" .binding
    |>.setKeyword "const" .binding
    |>.setKeyword "return" .returning

def standard : Rules :=
  empty.addStandard

/-- The language without a bound on nesting. -/
def unlimited : Rules :=
  { standard with limit := none }

end Rules

end Scopewise.Parse
