import Scopewise.Parse.Expr

namespace Scopewise.Parse

open Token

variable {α β : Type}

/-- What an expression may refer to, and where the input ends. -/
structure Context where
  hasFunction : String → Bool
  hasVariable : String → Bool
  ending : Position

/-- A parser of tokens without layout. It has no value where its fuel is used up. -/
abbrev Descent := ExceptT Diagnostic (StateT (List Token) Option)

namespace Descent

def read (parser : Descent α) (tokens : List Token) :
    Option (Except Diagnostic α × List Token) :=
  StateT.run (ExceptT.run parser) tokens

def exhausted : Descent α :=
  liftM (none : Option α)

def ahead : Descent (Option Kind) := do
  return (← get).head?.map (·.kind)

def skip : Descent Unit :=
  modify List.tail

def lacking (context : Context) (expected : String) : Descent α := do
  match ← get with
  | [] => throw ⟨.unexpectedEnd expected, context.ending⟩
  | token :: _ => throw ⟨.expectedToken expected token.value, token.position⟩

def additive? : Kind → Option BinaryOp
  | .plus => some .add
  | .dash => some .subtract
  | _ => none

def multiplicative? : Kind → Option BinaryOp
  | .star => some .multiply
  | .slash => some .divide
  | _ => none

def sign? : Kind → Option PrefixOp
  | .plus => some .plus
  | .dash => some .minus
  | _ => none

/-- An operator and its right operand. -/
def operation (op : BinaryOp) (left : Expr) (operand : Descent Expr) : Descent Expr := do
  skip
  return .binary op left (← operand)

/-- Any number of operators of one level, folded to the left. -/
def chain (op? : Kind → Option BinaryOp) (operand : Descent Expr) : Nat → Expr → Descent Expr
  | 0, _ => exhausted
  | n + 1, left => do
    match (← ahead).bind op? with
    | some op => chain op? operand n (← operation op left operand)
    | none => return left

/-- `unary (('*' | '/') unary)*` -/
def termOf (n : Nat) (unary : Descent Expr) : Descent Expr := do
  chain multiplicative? unary n (← unary)

/-- `term (('+' | '-') term)*` -/
def sumOf (n : Nat) (term : Descent Expr) : Descent Expr := do
  chain additive? term n (← term)

def argumentList (context : Context) (sum : Descent Expr) : Nat → Descent (List Expr)
  | 0 => exhausted
  | n + 1 => do
    let first ← sum
    match ← ahead with
    | some .comma => do
      skip
      return first :: (← argumentList context sum n)
    | some .closeParen => do
      skip
      return [first]
    | _ => lacking context "',' or ')'"

/-- What stands behind the parenthesis that opens a call. -/
def arguments (context : Context) (n : Nat) (sum : Descent Expr) : Descent (List Expr) := do
  if (← ahead) = some .closeParen then
    skip
    return []
  else argumentList context sum n

def literal (token : Token) : Descent Expr := do
  skip
  match Text.readInt64? token.value with
  | some value => return .integer value
  | none => throw ⟨.integerOutOfRange token.value, token.position⟩

def name (context : Context) (n : Nat) (sum : Descent Expr) (token : Token) : Descent Expr := do
  skip
  if (← ahead) = some .openParen then
    if context.hasFunction token.value then
      skip
      return .call token.value (← arguments context n sum)
    else throw ⟨.functionUndeclared token.value, token.position⟩
  else if context.hasVariable token.value then return .variable token.value
  else throw ⟨.variableUndeclared token.value, token.position⟩

def group (context : Context) (sum : Descent Expr) : Descent Expr := do
  skip
  let inner ← sum
  if (← ahead) = some .closeParen then
    skip
    return inner
  else lacking context "')'"

def primary (context : Context) (n : Nat) (sum : Descent Expr) : Descent Expr := do
  match ← get with
  | [] => throw ⟨.unexpectedEnd "expression", context.ending⟩
  | token :: _ =>
    match token.kind with
    | .integer => literal token
    | .identifier => name context n sum token
    | .openParen => group context sum
    | _ => throw ⟨.unexpectedToken token.value, token.position⟩

/-- `('+' | '-') unary | primary` -/
def unary (context : Context) : Nat → Descent Expr
  | 0 => exhausted
  | n + 1 => do
    match (← ahead).bind sign? with
    | some op => do
      skip
      return .unary op (← unary context n)
    | none => primary context n (sumOf n (termOf n (unary context n)))

def term (context : Context) (n : Nat) : Descent Expr :=
  termOf n (unary context n)

def sum (context : Context) (n : Nat) : Descent Expr :=
  sumOf n (term context n)

/-- The function for what binds more tightly than a power. -/
def stratum (context : Context) (n : Nat) : BindingPower → Descent Expr
  | .lowest => sum context n
  | .additive => term context n
  | .multiplicative | .unary => unary context n

/-- What is left of a level behind its first operand. -/
def tail (context : Context) (n factors terms : Nat) : BindingPower → Expr → Descent Expr
  | .lowest, left =>
    chain multiplicative? (unary context n) factors left >>=
      chain additive? (term context n) terms
  | .additive, left => chain multiplicative? (unary context n) factors left
  | .multiplicative, left | .unary, left => return left

theorem stratum_eq (context : Context) (n : Nat) (floor : BindingPower) :
    stratum context n floor = unary context n >>= tail context n n n floor := by
  cases floor with
  | lowest => exact bind_assoc _ _ _
  | additive => rfl
  | multiplicative | unary => exact (bind_pure _).symm

section Reading

variable {context : Context} {parser parser' : Descent α} {tokens : List Token} {left : Expr}
  {op : BinaryOp} {n factors terms : Nat}

theorem read_bind (parser : Descent α) (f : α → Descent β) (tokens : List Token) :
    (parser >>= f).read tokens = (parser.read tokens).bind fun
      | (.ok a, rest) => (f a).read rest
      | (.error e, rest) => some (.error e, rest) := by
  change Option.bind (parser.read tokens) _ = _
  rcases parser.read tokens with _ | ⟨_ | _, _⟩ <;> rfl

theorem read_bind_congr (h : parser.read tokens = parser'.read tokens) (f : α → Descent β) :
    (parser >>= f).read tokens = (parser' >>= f).read tokens := by
  rw [read_bind, read_bind, h]

theorem read_ahead_bind (f : Option Kind → Descent β) (tokens : List Token) :
    (ahead >>= f).read tokens = (f (tokens.head?.map (·.kind))).read tokens :=
  rfl

theorem read_get_bind (f : List Token → Descent β) (tokens : List Token) :
    (get >>= f).read tokens = (f tokens).read tokens :=
  rfl

section Chains

variable {op? : Kind → Option BinaryOp} {operand : Descent Expr}

theorem read_chain_of_some (h : (tokens.head?.map (·.kind)).bind op? = some op) :
    (chain op? operand (n + 1) left).read tokens =
      (operation op left operand >>= chain op? operand n).read tokens := by
  unfold chain
  rw [read_ahead_bind, h]

theorem read_chain_of_none (h : (tokens.head?.map (·.kind)).bind op? = none) :
    (chain op? operand (n + 1) left).read tokens = (pure left : Descent Expr).read tokens := by
  unfold chain
  rw [read_ahead_bind, h]

end Chains

/-- Where no factor follows, only terms are left to be added. -/
theorem read_tail_lowest (h : (tokens.head?.map (·.kind)).bind multiplicative? = none) :
    (tail context n (factors + 1) terms .lowest left).read tokens =
      (chain additive? (term context n) terms left).read tokens := by
  unfold tail
  rw [read_bind_congr (read_chain_of_none h), pure_bind]

theorem read_tail_of_factor {floor : BindingPower} (hfloor : ¬.multiplicative ≤ floor)
    (h : (tokens.head?.map (·.kind)).bind multiplicative? = some op) :
    (tail context n (factors + 1) terms floor left).read tokens =
      (operation op left (unary context n) >>= tail context n factors terms floor).read tokens := by
  cases floor with
  | lowest =>
    refine (read_bind_congr (read_chain_of_some h) _).trans ?_
    rw [bind_assoc]
    rfl
  | additive => exact read_chain_of_some h
  | multiplicative | unary => exact absurd (by decide) hfloor

theorem read_unary_of_sign {op : PrefixOp}
    (h : (tokens.head?.map (·.kind)).bind sign? = some op) :
    (unary context (n + 1)).read tokens =
      (do skip; return .unary op (← unary context n) : Descent Expr).read tokens := by
  conv => lhs; unfold unary
  rw [read_ahead_bind, h]

theorem read_unary_of_none (h : (tokens.head?.map (·.kind)).bind sign? = none) :
    (unary context (n + 1)).read tokens = (primary context n (sum context n)).read tokens := by
  unfold unary
  rw [read_ahead_bind, h]
  rfl

theorem read_unary_nil : (unary context (n + 1)).read [] =
    some (.error ⟨.unexpectedEnd "expression", context.ending⟩, []) :=
  read_unary_of_none rfl

end Reading

end Descent

end Scopewise.Parse
