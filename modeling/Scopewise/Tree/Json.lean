import Scopewise.Json
import Scopewise.Tree.Basic

namespace Scopewise

namespace Expr

mutual

def toJson : Expr → Json
  | .integer value => .object [("type", .string "integer"), ("value", .integer value.toInt)]
  | .variable name => .object [("type", .string "variable"), ("name", .string name)]
  | .call name args =>
    .object [("type", .string "function_call"), ("name", .string name),
      ("args", .array (listToJson args))]
  | .unary op operand =>
    .object [("type", .string "unary_expression"), ("op", .string op.symbol),
      ("operand", operand.toJson)]
  | .binary op left right =>
    .object [("type", .string "binary_expression"), ("op", .string op.symbol),
      ("left", left.toJson), ("right", right.toJson)]

def listToJson : List Expr → List Json
  | [] => []
  | expr :: exprs => expr.toJson :: listToJson exprs

end

end Expr

def Param.toJson (param : Param) : Json :=
  .object [("name", .string param.name), ("type", .string param.type)]

namespace Stmt

mutual

/-- A bare expression is written as the expression itself. -/
def toJson : Stmt → Json
  | .function name params returnType body =>
    .object [("type", .string "function_declaration"), ("name", .string name),
      ("params", .array (params.map Param.toJson)), ("return_type", .string returnType.name),
      ("body", .array (listToJson body))]
  | .binding .mutable name value =>
    .object [("type", .string "mutable_variable_assignment"), ("name", .string name),
      ("expr", value.toJson)]
  | .binding .immutable name value =>
    .object [("type", .string "immutable_variable_assignment"), ("name", .string name),
      ("expr", value.toJson)]
  | .returning value => .object [("type", .string "function_return"), ("expr", value.toJson)]
  | .bare expr => expr.toJson

def listToJson : List Stmt → List Json
  | [] => []
  | stmt :: stmts => stmt.toJson :: listToJson stmts

end

/-- A program as JSON: the array of its statements. -/
def programToJson (program : List Stmt) : Json :=
  .array (listToJson program)

end Stmt

end Scopewise
