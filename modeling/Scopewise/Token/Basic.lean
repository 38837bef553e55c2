import Scopewise.Source
import Scopewise.Text.Quoted

namespace Scopewise

namespace Token

inductive Kind
  | integer
  | identifier
  | openCurly
  | closeCurly
  | openParen
  | closeParen
  | assignment
  | plus
  | dash
  | slash
  | star
  | semicolon
  | colon
  | comma
  | newline
deriving DecidableEq, Repr, Inhabited

inductive Category
  | identifier
  | integer
  | operator
  | punctuation
  | parenthesis
  | newline
deriving DecidableEq, Repr, Inhabited

namespace Kind

/-- The character of a kind that has only one lexeme and is not layout. -/
def symbol? : Kind → Option Char
  | .integer | .identifier | .newline => none
  | .openCurly => some '\x7b'
  | .closeCurly => some '\x7d'
  | .openParen => some '('
  | .closeParen => some ')'
  | .assignment => some '='
  | .plus => some '+'
  | .dash => some '-'
  | .slash => some '/'
  | .star => some '*'
  | .semicolon => some ';'
  | .colon => some ':'
  | .comma => some ','

def ofSymbol? (c : Char) : Option Kind :=
  [openCurly, closeCurly, openParen, closeParen, assignment, plus, dash, slash, star, semicolon,
    colon, comma].find? (·.symbol? = some c)

/-- How messages name the kind: a symbol stands between apostrophes. -/
def describe (kind : Kind) : String :=
  match kind with
  | .integer => "integer"
  | .identifier => "identifier"
  | .newline => "newline"
  | _ => String.ofList ('\'' :: (kind.symbol?.toList ++ ['\'']))

def category : Kind → Category
  | .identifier => .identifier
  | .integer => .integer
  | .assignment | .plus | .dash | .slash | .star => .operator
  | .semicolon | .colon | .comma => .punctuation
  | .openCurly | .closeCurly | .openParen | .closeParen => .parenthesis
  | .newline => .newline

theorem ofSymbol?_eq_some_iff {c : Char} {kind : Kind} :
    ofSymbol? c = some kind ↔ kind.symbol? = some c := by
  constructor
  · intro h
    simpa using List.find?_some h
  · intro h
    cases kind <;> simp_all [symbol?] <;> subst h <;> rfl

end Kind

def Category.describe : Category → String
  | .identifier => "identifier"
  | .integer => "integer"
  | .operator => "operator"
  | .punctuation => "punctuation"
  | .parenthesis => "parenthesis"
  | .newline => "newline"

end Token

structure Token where
  kind : Token.Kind
  value : String
  position : Position
deriving DecidableEq, Repr, Inhabited

namespace Token

def category (token : Token) : Category :=
  token.kind.category

def line (token : Token) : UInt32 :=
  token.position.line

/-- Whether the token is the identifier spelled `word`, such as a keyword. -/
def isWord (word : String) (token : Token) : Bool :=
  token.kind = .identifier && token.value = word

/-- The token over four lines: kind, quoted text and line. -/
def describe (token : Token) : String :=
  "Token \x7b\nkind: " ++ token.kind.describe ++ ",\nvalue: " ++ Text.quote token.value ++
    ",\nline: " ++ toString token.line.toNat ++ "\x7d"

/-- The token on one line of a listing. -/
def listing (token : Token) : String :=
  toString token.line.toNat ++ " " ++ token.category.describe ++ " " ++ Text.quote token.value

end Token

end Scopewise
