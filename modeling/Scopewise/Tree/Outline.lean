import Scopewise.Outline
import Scopewise.Tree.Basic

namespace Scopewise

namespace Expr

mutual

def toOutline : Expr → Outline
  | .integer value =>
    .wrap "Integer" (.record "NumberExpr" [("value", .atom (toString value.toInt))])
  | .variable name => .wrap "Variable" (.record "SymbolExpr" [("name", .quoted name)])
  | .call name args =>
    .wrap "FunctionCall" (.record "CallExpr"
      [("name", .quoted name), ("arguments", .list (listToOutline args))])
  | .unary op operand =>
    .wrap "Unary" (.record "PrefixExpr"
      [("operator", .atom op.label), ("operand", operand.toOutline)])
  | .binary op left right =>
    .wrap "Binary" (.record "BinaryExpr"
      [("operator", .atom op.label), ("left", left.toOutline), ("right", right.toOutline)])

def listToOutline : List Expr → List Outline
  | [] => []
  | expr :: exprs => expr.toOutline :: listToOutline exprs

end

end Expr

def Param.toOutline (param : Param) : Outline :=
  .record "Parameter" [("name", .quoted param.name), ("type_", .quoted param.type)]

namespace Stmt

mutual

def toOutline : Stmt → Outline
  | .function name params returnType body =>
    .wrap "FunctionDeclaration" (.record "FnDeclStmt"
      [("name", .quoted name), ("parameters", .list (params.map Param.toOutline)),
        ("return_type", .atom returnType.label), ("body", .list (listToOutline body))])
  | .binding mutability name value =>
    .wrap (match mutability with
        | .mutable => "MutableVariableAssignment"
        | .immutable => "ImmutableVariableAssignment")
      (.record "VarDeclStmt" [("name", .quoted name), ("value", value.toOutline)])
  | .returning value =>
    .wrap "FunctionReturn" (.record "ReturnStmt" [("value", value.toOutline)])
  | .bare expr => .wrap "Expression" expr.toOutline

def listToOutline : List Stmt → List Outline
  | [] => []
  | stmt :: stmts => stmt.toOutline :: listToOutline stmts

end

/-- A program as an outline: the list of its statements. -/
def programToOutline (program : List Stmt) : Outline :=
  .list (listToOutline program)

end Stmt

end Scopewise
