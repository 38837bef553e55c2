import Scopewise.Tree.Json
import Scopewise.Proofs.Json.Squeeze

namespace Scopewise

def PrefixOp.ofSymbol? (symbol : String) : Option PrefixOp :=
  [plus, minus].find? (·.symbol = symbol)

def BinaryOp.ofSymbol? (symbol : String) : Option BinaryOp :=
  [add, subtract, multiply, divide].find? (·.symbol = symbol)

theorem PrefixOp.ofSymbol?_symbol (op : PrefixOp) : ofSymbol? op.symbol = some op := by
  cases op <;> decide

theorem BinaryOp.ofSymbol?_symbol (op : BinaryOp) : ofSymbol? op.symbol = some op := by
  cases op <;> decide

theorem ReturnType.ofName?_name (type : ReturnType) : ofName? type.name = some type := by
  cases type <;> decide

namespace Expr

mutual

def ofJson? : Json → Option Expr
  | .object [("type", .string "integer"), ("value", .integer value)] =>
    if (Int64.ofInt value).toInt = value then some (.integer (Int64.ofInt value)) else none
  | .object [("type", .string "variable"), ("name", .string name)] => some (.variable name)
  | .object [("type", .string "function_call"), ("name", .string name), ("args", .array args)] =>
    (listOfJson? args).map (.call name)
  | .object [("type", .string "unary_expression"), ("op", .string op), ("operand", operand)] => do
    return .unary (← PrefixOp.ofSymbol? op) (← ofJson? operand)
  | .object [("type", .string "binary_expression"), ("op", .string op), ("left", left),
      ("right", right)] => do
    return .binary (← BinaryOp.ofSymbol? op) (← ofJson? left) (← ofJson? right)
  | _ => none

def listOfJson? : List Json → Option (List Expr)
  | [] => some []
  | item :: items => do return (← ofJson? item) :: (← listOfJson? items)

end

mutual

theorem ofJson?_toJson : (e : Expr) → ofJson? e.toJson = some e
  | .integer value => by simp [toJson, ofJson?]
  | .variable name => by simp [toJson, ofJson?]
  | .call name args => by simp [toJson, ofJson?, listOfJson?_listToJson args]
  | .unary op operand => by
    simp [toJson, ofJson?, PrefixOp.ofSymbol?_symbol, ofJson?_toJson operand]
  | .binary op left right => by
    simp [toJson, ofJson?, BinaryOp.ofSymbol?_symbol, ofJson?_toJson left, ofJson?_toJson right]

theorem listOfJson?_listToJson : (es : List Expr) → listOfJson? (listToJson es) = some es
  | [] => by simp [listToJson, listOfJson?]
  | e :: es => by simp [listToJson, listOfJson?, ofJson?_toJson e, listOfJson?_listToJson es]

end

end Expr

def Param.ofJson? : Json → Option Param
  | .object [("name", .string name), ("type", .string type)] => some ⟨name, type⟩
  | _ => none

theorem Param.ofJson?_toJson (param : Param) : ofJson? param.toJson = some param := rfl

namespace Stmt

mutual

/-- A bare expression has no tag of its own: what is tagged as no other statement must be one. -/
def ofJson? : Json → Option Stmt
  | .object [("type", .string "function_declaration"), ("name", .string name),
      ("params", .array params), ("return_type", .string returnType), ("body", .array body)] => do
    return .function name (← params.mapM Param.ofJson?) (← ReturnType.ofName? returnType)
      (← listOfJson? body)
  | .object [("type", .string "mutable_variable_assignment"), ("name", .string name),
      ("expr", value)] => (Expr.ofJson? value).map (.binding .mutable name)
  | .object [("type", .string "immutable_variable_assignment"), ("name", .string name),
      ("expr", value)] => (Expr.ofJson? value).map (.binding .immutable name)
  | .object [("type", .string "function_return"), ("expr", value)] =>
    (Expr.ofJson? value).map .returning
  | value => (Expr.ofJson? value).map .bare

def listOfJson? : List Json → Option (List Stmt)
  | [] => some []
  | item :: items => do return (← ofJson? item) :: (← listOfJson? items)

end

theorem ofJson?_toJson_expr (e : Expr) : ofJson? e.toJson = some (.bare e) := by
  have hread := e.ofJson?_toJson
  cases e with
  | integer value => simp_all [Expr.toJson, ofJson?]
  | «variable» name => simp_all [Expr.toJson, ofJson?]
  | call name args => simp_all [Expr.toJson, ofJson?]
  | unary op operand => simp_all [Expr.toJson, ofJson?]
  | binary op left right => simp_all [Expr.toJson, ofJson?]

theorem mapM_ofJson?_map_toJson (params : List Param) :
    (params.map Param.toJson).mapM Param.ofJson? = some params := by
  induction params with
  | nil => rfl
  | cons param params ih => simp [Param.ofJson?_toJson, ih]

mutual

theorem ofJson?_toJson : (s : Stmt) → ofJson? s.toJson = some s
  | .function name params returnType body => by
    rw [toJson, ofJson?, mapM_ofJson?_map_toJson, ReturnType.ofName?_name,
      listOfJson?_listToJson body]
    rfl
  | .binding .mutable name value => by simp [toJson, ofJson?, Expr.ofJson?_toJson]
  | .binding .immutable name value => by simp [toJson, ofJson?, Expr.ofJson?_toJson]
  | .returning value => by simp [toJson, ofJson?, Expr.ofJson?_toJson]
  | .bare value => ofJson?_toJson_expr value

theorem listOfJson?_listToJson : (ss : List Stmt) → listOfJson? (listToJson ss) = some ss
  | [] => by simp [listToJson, listOfJson?]
  | s :: ss => by simp [listToJson, listOfJson?, ofJson?_toJson s, listOfJson?_listToJson ss]

end

/-- The program that a text spells on one line. -/
def ofText? (text : String) : Option (List Stmt) :=
  match Json.read? text with
  | some (.array items) => listOfJson? items
  | _ => none

theorem ofText?_compact_programToJson (program : List Stmt) :
    ofText? (programToJson program).compact = some program := by
  rw [ofText?, Json.read?_compact]
  exact listOfJson?_listToJson program

end Stmt

/-- An object whose member `type`, and no other one of that name, holds the tag. -/
def Json.Tagged (tag : String) (value : Json) : Prop :=
  ∃ members, value = .object (("type", .string tag) :: members) ∧ ∀ m ∈ members, m.1 ≠ "type"

theorem Expr.tagged_toJson (e : Expr) : Json.Tagged e.kindName e.toJson := by
  cases e with
  | integer | «variable» | call | unary | binary => exact ⟨_, rfl, by simp⟩

theorem Stmt.tagged_toJson (s : Stmt) : Json.Tagged s.kindName s.toJson := by
  cases s with
  | binding mutability name value => cases mutability <;> exact ⟨_, rfl, by simp⟩
  | function | returning => exact ⟨_, rfl, by simp⟩
  | bare value => exact value.tagged_toJson

/-- The text of a program loses nothing: it can be read back, so that no two programs share one; it
names the kind of every node; and to lay it out adds blanks only. -/
theorem Stmt.programToJson_lossless :
    (∀ program, ofText? (programToJson program).compact = some program) ∧
      (∀ program program', (programToJson program).compact = (programToJson program').compact →
        program = program') ∧
      (∀ s : Stmt, Json.Tagged s.kindName s.toJson) ∧
      (∀ e : Expr, Json.Tagged e.kindName e.toJson) ∧
      ∀ program, Json.squeeze (programToJson program).pretty.toList =
        (programToJson program).compact.toList := by
  refine ⟨ofText?_compact_programToJson, ?_, tagged_toJson, Expr.tagged_toJson, ?_⟩
  · intro program program' h
    have hread := ofText?_compact_programToJson program
    rw [h, ofText?_compact_programToJson] at hread
    exact (Option.some.inj hread).symm
  · intro program
    exact Json.squeeze_render (.indented 2) (programToJson program)

end Scopewise
