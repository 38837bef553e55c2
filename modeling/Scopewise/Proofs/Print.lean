import Scopewise.Proofs.Language
import Scopewise.Proofs.Token.Rendering

namespace Scopewise

open Grammar Token

/-- The lexeme of a kind that has only one. -/
def Token.Kind.lexeme (kind : Kind) : Lexeme :=
  ⟨kind, String.ofList kind.symbol?.toList⟩

/-- The lexeme of a name or a keyword. -/
def Token.Lexeme.word (text : String) : Lexeme :=
  ⟨.identifier, text⟩

namespace Expr

/-- The level that the expression has without parentheses around it. -/
def level : Expr → Level
  | .integer _ | .variable _ | .call .. => .primary
  | .unary .. => .unary
  | .binary op .. => op.level

/-- Whether the expression needs parentheses to stand where the grammar has the level `required`. -/
def loose (required : Level) (e : Expr) : Bool :=
  e.level.rank < required.rank

def grouped (needed : Bool) (ls : List Lexeme) : List Lexeme :=
  if needed then Kind.openParen.lexeme :: ls ++ [Kind.closeParen.lexeme] else ls

mutual

def lexemes : Expr → List Lexeme
  | .integer value => [⟨.integer, toString value⟩]
  | .variable name => [.word name]
  | .call name args => .word name :: Kind.openParen.lexeme :: argLexemes args
  | .unary op operand => op.kind.lexeme :: grouped (operand.loose .unary) (lexemes operand)
  | .binary op left right =>
    grouped (left.loose op.level) (lexemes left) ++
      op.kind.lexeme :: grouped (right.loose op.level.next) (lexemes right)

def argLexemes : List Expr → List Lexeme
  | [] => [Kind.closeParen.lexeme]
  | e :: es => lexemes e ++ moreLexemes es

/-- The arguments behind the first one. -/
def moreLexemes : List Expr → List Lexeme
  | [] => [Kind.closeParen.lexeme]
  | e :: es => Kind.comma.lexeme :: lexemes e ++ moreLexemes es

end

mutual

/-- The levels of nesting that the print opens, as `Grammar.Derives` counts them. -/
def nesting : Expr → Nat
  | .integer _ | .variable _ => 0
  | .call _ args => nestingAll args
  | .unary _ operand => nesting operand + (operand.loose .unary).toNat + 1
  | .binary op left right =>
    max (nesting left + (left.loose op.level).toNat)
      (nesting right + (right.loose op.level.next).toNat + 1)

def nestingAll : List Expr → Nat
  | [] => 0
  | e :: es => max (nesting e + 1) (nestingAll es)

end

mutual

/-- Whether every name can be written, and every literal without a sign. -/
def writable : Expr → Bool
  | .integer value => 0 ≤ value.toInt && value.toInt ≤ Int64.maxValue.toInt
  | .variable name => isName name.toList
  | .call name args => isName name.toList && writableAll args
  | .unary _ operand => writable operand
  | .binary _ left right => writable left && writable right

def writableAll : List Expr → Bool
  | [] => true
  | e :: es => writable e && writableAll es

end

/-- Whether the print begins as a bare expression may. -/
def beginsBare (e : Expr) : Bool :=
  match e.lexemes.head? with
  | some l => l.kind = .identifier && !keywords.contains l.text
  | none => false

end Expr

namespace Param

def lexemes (p : Param) : List Lexeme :=
  [.word p.name, Kind.colon.lexeme, .word p.type]

def listLexemes : List Param → List Lexeme
  | [] => [Kind.closeParen.lexeme]
  | [p] => p.lexemes ++ [Kind.closeParen.lexeme]
  | p :: q :: ps => p.lexemes ++ Kind.comma.lexeme :: listLexemes (q :: ps)

def writable (p : Param) : Bool :=
  isName p.name.toList && isName p.type.toList

end Param

namespace Stmt

mutual

def lexemes : Stmt → List Lexeme
  | .function name params type body =>
    .word "fn" :: .word name :: Kind.openParen.lexeme :: Param.listLexemes params ++
      Kind.colon.lexeme :: .word type.name :: Kind.openCurly.lexeme :: lexemesAll body ++
      [Kind.closeCurly.lexeme, Kind.semicolon.lexeme]
  | .binding mutability name value =>
    .word mutability.keyword :: .word name :: Kind.assignment.lexeme :: value.lexemes ++
      [Kind.semicolon.lexeme]
  | .returning value => .word "return" :: value.lexemes ++ [Kind.semicolon.lexeme]
  | .bare value => value.lexemes ++ [Kind.semicolon.lexeme]

def lexemesAll : List Stmt → List Lexeme
  | [] => []
  | s :: ss => lexemes s ++ lexemesAll ss

end

/-- The canonical print of a program. -/
def print (program : List Stmt) : String :=
  String.ofList (Lexeme.spaced (lexemesAll program))

mutual

def nesting : Stmt → Nat
  | .function _ _ _ body => nestingAll body + 1
  | .binding _ _ value | .returning value | .bare value => value.nesting + 1

/-- The levels of nesting that the print of a program opens. -/
def nestingAll : List Stmt → Nat
  | [] => 0
  | s :: ss => max (nesting s) (nestingAll ss)

end

mutual

def writable : Stmt → Bool
  | .function name params _ body =>
    isName name.toList && params.all Param.writable && writableAll body
  | .binding _ name value => isName name.toList && value.writable
  | .returning value | .bare value => value.writable

/-- Whether every name and parameter type can be written, and every literal without a sign. -/
def writableAll : List Stmt → Bool
  | [] => true
  | s :: ss => writable s && writableAll ss

end

mutual

def begins : Stmt → Bool
  | .function _ _ _ body => beginsAll body
  | .binding .. | .returning _ => true
  | .bare value => value.beginsBare

/-- Whether the print of every bare expression begins with an identifier that is no keyword. -/
def beginsAll : List Stmt → Bool
  | [] => true
  | s :: ss => begins s && beginsAll ss

end

/-- The programs whose print is read back. -/
structure Printable (program : List Stmt) : Prop where
  writable : writableAll program = true
  begins : beginsAll program = true
  resolves : programResolves program = true
  nesting : nestingAll program ≤ Parse.Rules.maxNesting

example : print [.binding .mutable "x" (.binary .subtract (.integer 1)
      (.binary .add (.integer 2) (.unary .minus (.integer 3))))] =
    "let x = 1 - ( 2 + - 3 ) ; " := by
  decide +kernel

end Stmt

end Scopewise
