import Scopewise.Scope.Basic
import Scopewise.Token.Basic

namespace Scopewise

inductive PrefixOp
  | plus
  | minus
deriving DecidableEq, Repr, Inhabited

inductive BinaryOp
  | add
  | subtract
  | multiply
  | divide
deriving DecidableEq, Repr, Inhabited

namespace PrefixOp

def ofKind? : Token.Kind → Option PrefixOp
  | .plus => some .plus
  | .dash => some .minus
  | _ => none

def symbol : PrefixOp → String
  | .plus => "+"
  | .minus => "-"

/-- The operator's name in an outline. -/
def label : PrefixOp → String
  | .plus => "Plus"
  | .minus => "Minus"

end PrefixOp

namespace BinaryOp

def ofKind? : Token.Kind → Option BinaryOp
  | .plus => some .add
  | .dash => some .subtract
  | .star => some .multiply
  | .slash => some .divide
  | _ => none

def symbol : BinaryOp → String
  | .add => "+"
  | .subtract => "-"
  | .multiply => "*"
  | .divide => "/"

/-- The operator's name in an outline. -/
def label : BinaryOp → String
  | .add => "Add"
  | .subtract => "Subtract"
  | .multiply => "Multiply"
  | .divide => "Divide"

end BinaryOp

/-- The types a function may be declared to return. -/
inductive ReturnType
  | void
  | int
deriving DecidableEq, Repr, Inhabited

namespace ReturnType

def name : ReturnType → String
  | .void => "void"
  | .int => "int"

/-- The type's name in an outline. -/
def label : ReturnType → String
  | .void => "Void"
  | .int => "Int"

def ofName? (name : String) : Option ReturnType :=
  [void, int].find? (·.name = name)

end ReturnType

/-- A parameter's type is any identifier and is kept as written. -/
structure Param where
  name : String
  type : String
deriving DecidableEq, Repr, Inhabited

inductive Expr
  | integer (value : Int64)
  | variable (name : String)
  | call (name : String) (args : List Expr)
  | unary (op : PrefixOp) (operand : Expr)
  | binary (op : BinaryOp) (left right : Expr)
deriving Repr, Inhabited

inductive Stmt
  | function (name : String) (params : List Param) (returnType : ReturnType) (body : List Stmt)
  | binding (mutability : Mutability) (name : String) (value : Expr)
  | returning (value : Expr)
  | bare (expr : Expr)
deriving Repr, Inhabited

namespace Expr

/-- The name of the node's kind. -/
def kindName : Expr → String
  | .integer _ => "integer"
  | .variable _ => "variable"
  | .call .. => "function_call"
  | .unary .. => "unary_expression"
  | .binary .. => "binary_expression"

mutual

def beq : Expr → Expr → Bool
  | .integer v, .integer w => v == w
  | .variable x, .variable y => x == y
  | .call f as, .call g bs => f == g && beqList as bs
  | .unary o a, .unary p b => o == p && beq a b
  | .binary o a b, .binary p c d => o == p && beq a c && beq b d
  | _, _ => false

def beqList : List Expr → List Expr → Bool
  | [], [] => true
  | a :: as, b :: bs => beq a b && beqList as bs
  | _, _ => false

end

mutual

theorem eq_of_beq {a b : Expr} (h : beq a b = true) : a = b := by
  cases a <;> cases b <;> simp only [beq, Bool.and_eq_true, beq_iff_eq, Bool.false_eq_true] at h
  case integer.integer => exact congrArg _ h
  case variable.variable => exact congrArg _ h
  case call.call => rw [h.1, eq_of_beqList h.2]
  case unary.unary => rw [h.1, eq_of_beq h.2]
  case binary.binary => rw [h.1.1, eq_of_beq h.1.2, eq_of_beq h.2]

theorem eq_of_beqList {as bs : List Expr} (h : beqList as bs = true) : as = bs := by
  cases as <;> cases bs <;> simp only [beqList, Bool.and_eq_true, Bool.false_eq_true] at h
  case nil.nil => rfl
  case cons.cons => rw [eq_of_beq h.1, eq_of_beqList h.2]

end

mutual

theorem beq_self : (a : Expr) → beq a a = true
  | .integer _ | .variable _ => by simp [beq]
  | .call _ as => by simp [beq, beqList_self as]
  | .unary _ a => by simp [beq, beq_self a]
  | .binary _ a b => by simp [beq, beq_self a, beq_self b]

theorem beqList_self : (as : List Expr) → beqList as as = true
  | [] => rfl
  | a :: as => by simp [beqList, beq_self a, beqList_self as]

end

instance : DecidableEq Expr := fun a b =>
  decidable_of_iff (beq a b = true) ⟨eq_of_beq, fun h => h ▸ beq_self a⟩

end Expr

namespace Stmt

/-- The name of the node's kind; a bare expression goes by its own. -/
def kindName : Stmt → String
  | .function .. => "function_declaration"
  | .binding .mutable .. => "mutable_variable_assignment"
  | .binding .immutable .. => "immutable_variable_assignment"
  | .returning _ => "function_return"
  | .bare expr => expr.kindName

mutual

def beq : Stmt → Stmt → Bool
  | .function f ps r b, .function g qs s c => f == g && ps == qs && r == s && beqList b c
  | .binding m x v, .binding n y w => m == n && x == y && v == w
  | .returning v, .returning w => v == w
  | .bare v, .bare w => v == w
  | _, _ => false

def beqList : List Stmt → List Stmt → Bool
  | [], [] => true
  | a :: as, b :: bs => beq a b && beqList as bs
  | _, _ => false

end

mutual

theorem eq_of_beq {a b : Stmt} (h : beq a b = true) : a = b := by
  cases a <;> cases b <;> simp only [beq, Bool.and_eq_true, beq_iff_eq, Bool.false_eq_true] at h
  case function.function => rw [h.1.1.1, h.1.1.2, h.1.2, eq_of_beqList h.2]
  case binding.binding => rw [h.1.1, h.1.2, h.2]
  case returning.returning => rw [h]
  case bare.bare => rw [h]

theorem eq_of_beqList {as bs : List Stmt} (h : beqList as bs = true) : as = bs := by
  cases as <;> cases bs <;> simp only [beqList, Bool.and_eq_true, Bool.false_eq_true] at h
  case nil.nil => rfl
  case cons.cons => rw [eq_of_beq h.1, eq_of_beqList h.2]

end

mutual

theorem beq_self : (a : Stmt) → beq a a = true
  | .function _ _ _ b => by simp [beq, beqList_self b]
  | .binding .. | .returning _ | .bare _ => by simp [beq]

theorem beqList_self : (as : List Stmt) → beqList as as = true
  | [] => rfl
  | a :: as => by simp [beqList, beq_self a, beqList_self as]

end

instance : DecidableEq Stmt := fun a b =>
  decidable_of_iff (beq a b = true) ⟨eq_of_beq, fun h => h ▸ beq_self a⟩

end Stmt

end Scopewise
