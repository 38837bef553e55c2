import Scopewise.Source

namespace Scopewise

/-- The cause of a diagnostic; its wording is in `Fault.detail` and `Fault.tip?`. -/
inductive Fault
  | unexpectedCharacter (character : Char)
  | unexpectedToken (text : String)
  | expectedToken (expected found : String)
  | unexpectedEnd (expected : String)
  | unmatchedBrace
  | integerOutOfRange (text : String)
  | nestingTooDeep (limit : Nat)
  | variableRedeclared (name : String)
  | variableUndeclared (name : String)
  | functionRedeclared (name : String)
  | functionUndeclared (name : String)
  | unknownReturnType (name : String)
  | scopeUnderflow
deriving DecidableEq, Repr, Inhabited

namespace Fault

/-- The stage of the front end that a fault belongs to. -/
inductive Stage
  | lexical
  | syntactic
  | semantic
  | typing
  | scoping
deriving DecidableEq, Repr, Inhabited

def Stage.describe : Stage → String
  | .lexical => "LexError"
  | .syntactic => "SyntaxError"
  | .semantic => "SemanticError"
  | .typing => "TypeError"
  | .scoping => "ScopeError"

def stage : Fault → Stage
  | .unexpectedCharacter _ => .lexical
  | .unexpectedToken _ | .expectedToken .. | .unexpectedEnd _ | .unmatchedBrace
  | .integerOutOfRange _ | .nestingTooDeep _ => .syntactic
  | .variableRedeclared _ | .variableUndeclared _
  | .functionRedeclared _ | .functionUndeclared _ => .semantic
  | .unknownReturnType _ => .typing
  | .scopeUnderflow => .scoping

/-- A text between apostrophes, taken as it is. -/
private def cited (text : String) : String :=
  "'" ++ text ++ "'"

def detail : Fault → String
  | .unexpectedCharacter c => "unexpected character " ++ cited c.toString
  | .unexpectedToken text => "unexpected token " ++ cited text
  | .expectedToken expected found => "expected " ++ expected ++ ", found " ++ cited found
  | .unexpectedEnd expected => "unexpected end of input, expected " ++ expected
  | .unmatchedBrace => "unmatched closing brace '\x7d'"
  | .integerOutOfRange text => "integer literal " ++ cited text ++ " is out of range"
  | .nestingTooDeep limit => "nesting deeper than " ++ toString limit ++ " levels"
  | .variableRedeclared name => "variable already defined: " ++ cited name
  | .variableUndeclared name => "variable not defined: " ++ cited name
  | .functionRedeclared name => "function already declared: " ++ cited name
  | .functionUndeclared name => "function not defined: " ++ cited name
  | .unknownReturnType name => "unrecognized return type " ++ cited name
  | .scopeUnderflow => "no scope left to exit"

/-- Advice, where there is any. A tab is the one character, and the semicolon the one expectation,
that has its own. -/
def tip? : Fault → Option String
  | .unexpectedCharacter c =>
    if c = '\t' then some "indent with spaces, tabs are not accepted" else none
  | .expectedToken expected _ =>
    if expected = "';'" then some "did you miss a semicolon?" else none
  | .unmatchedBrace => some "remove the `\x7d` or add the matching `\x7b`"
  | .integerOutOfRange _ => some "integer literals must fit in a signed 64 bit integer"
  | .nestingTooDeep _ => some "split the expression into intermediate `let` bindings"
  | .variableUndeclared name =>
    some ("declare `" ++ name ++ "` with `let` or `const` before using it")
  | .functionUndeclared _ => some "functions must be declared before they are called"
  | .unknownReturnType _ => some "expected one of `void`, `int`"
  | .unexpectedToken _ | .unexpectedEnd _ | .variableRedeclared _ | .functionRedeclared _
  | .scopeUnderflow => none

end Fault

/-- A fault and the place it is reported at. -/
structure Diagnostic where
  fault : Fault
  position : Position
deriving DecidableEq, Repr, Inhabited

def Diagnostic.message (d : Diagnostic) : String :=
  d.position.file ++ ":" ++ toString d.position.line.toNat ++ ": " ++ d.fault.stage.describe ++
    ": " ++ d.fault.detail

end Scopewise
