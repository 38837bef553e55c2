import Mathlib.Data.List.TakeWhile
import Scopewise.Proofs.Token.Bytes

namespace Scopewise.Token

/-- A shape of lexemes: a character of `first`, and then all characters of `more` that follow. -/
structure Shape where
  first : Char → Bool
  more : Char → Bool

/-- The lexeme at the front of a text. -/
def Shape.find? (shape : Shape) : List Char → Option (List Char)
  | [] => none
  | c :: text => if shape.first c then some (c :: text.takeWhile shape.more) else none

/-- What is done where a pattern fits: the lexeme is kept as a token or skipped, a line ends, or a
token is made of a fixed text. -/
inductive Handler
  | keep (kind : Kind)
  | skip
  | newline
  | fixed (kind : Kind) (text : String)
deriving DecidableEq, Repr

structure Pattern where
  shape : Shape
  handler : Handler

namespace Pattern

def word : Pattern :=
  ⟨⟨isWordStart, isWordChar⟩, .keep .identifier⟩

def number : Pattern :=
  ⟨⟨Char.isDigit, Char.isDigit⟩, .keep .integer⟩

def blanks : Pattern :=
  ⟨⟨isSpace, isSpace⟩, .skip⟩

def newline : Pattern :=
  ⟨⟨(· = '\n'), fun _ => false⟩, .newline⟩

def symbol (kind : Kind) (c : Char) : Pattern :=
  ⟨⟨(· = c), fun _ => false⟩, .fixed kind (String.singleton c)⟩

end Pattern

/-- The patterns in the order in which they are tried. -/
def patterns : List Pattern :=
  [.word, .number, .blanks, .newline, .symbol .openCurly '\x7b', .symbol .closeCurly '\x7d',
    .symbol .openParen '(', .symbol .closeParen ')', .symbol .assignment '=',
    .symbol .semicolon ';', .symbol .colon ':', .symbol .comma ',', .symbol .plus '+',
    .symbol .dash '-', .symbol .slash '/', .symbol .star '*']

/-- The first pattern that fits the text. -/
def firstPattern? (text : List Char) : Option Pattern :=
  patterns.find? fun p => (p.shape.find? text).isSome

/-- A lexer keeps the whole text and an offset in bytes that moves without any check. Where the
offset is not at the start of a character there is no text ahead, and then a turn has no outcome. -/
structure Lexer extends Window where
  tokens : List Token := []
deriving DecidableEq, Repr

namespace Lexer

def ofSource (source file : String) : Lexer :=
  { source, file }

def push (kind : Kind) (value : String) (lexer : Lexer) : Lexer :=
  { lexer with tokens := lexer.tokens ++ [⟨kind, value, lexer.position⟩] }

def move (n : Nat) (lexer : Lexer) : Lexer :=
  { lexer with toWindow := lexer.toWindow.advance n.toUInt64 }

/-- The size of the lexeme ahead, and zero where the shape does not fit. -/
def matchedSize? (shape : Shape) (lexer : Lexer) : Option Nat :=
  lexer.remainder?.map fun rest => ((shape.find? rest.toList).map byteSize).getD 0

/-- The next `n` bytes. -/
def slice? (n : Nat) (lexer : Lexer) : Option String := do
  let rest ← lexer.remainder?
  let text ← takeBytes? n rest.toList
  return String.ofList text

/-- A fixed text is not compared with what is ahead. -/
def handle? (p : Pattern) (lexer : Lexer) : Option Lexer :=
  match p.handler with
  | .keep kind => do
    let n ← lexer.matchedSize? p.shape
    let text ← lexer.slice? n
    return (lexer.push kind text).move n
  | .skip => do
    let n ← lexer.matchedSize? p.shape
    return lexer.move n
  | .newline =>
    let next := (lexer.push .newline "\n").move 1
    some { next with line := next.line + 1 }
  | .fixed kind text => some ((lexer.push kind text).move text.utf8ByteSize)

inductive Turn
  | again (next : Lexer)
  | ended (result : Except Diagnostic (List Token))

/-- One turn. The zero character stands in for one that is missing. -/
def turn? (lexer : Lexer) : Option Turn :=
  if lexer.atEnd then
    some (.ended (.ok lexer.tokens))
  else do
    let rest ← lexer.remainder?
    match firstPattern? rest.toList with
    | some p => return .again (← lexer.handle? p)
    | none =>
      let c? ← lexer.peek?
      return .ended (.error ⟨.unexpectedCharacter (c?.getD '\x00'), lexer.position⟩)

-- inside a character of two bytes there is no outcome
example : ((ofSource "é;" "f").move 1).turn?.isNone = true := by decide

end Lexer

theorem Shape.find?_eq_some_iff {shape : Shape} {text lexeme : List Char} :
    shape.find? text = some lexeme ↔ ∃ c rest, text = c :: rest ∧ shape.first c = true ∧
      c :: rest.takeWhile shape.more = lexeme := by
  cases text with
  | nil => simp [find?]
  | cons c rest =>
    simp only [find?, Option.ite_none_right_eq_some, Option.some.injEq]
    constructor
    · rintro ⟨hc, hlexeme⟩
      exact ⟨c, rest, rfl, hc, hlexeme⟩
    · rintro ⟨d, tail, htext, hd, hlexeme⟩
      cases htext
      exact ⟨hd, hlexeme⟩

theorem Shape.find?_eq_some {shape : Shape} {text lexeme : List Char}
    (h : shape.find? text = some lexeme) : lexeme ≠ [] ∧ ∃ rest, text = lexeme ++ rest := by
  obtain ⟨c, rest, rfl, -, rfl⟩ := find?_eq_some_iff.1 h
  refine ⟨List.cons_ne_nil _ _, rest.dropWhile shape.more, ?_⟩
  rw [List.cons_append, List.takeWhile_append_dropWhile]

theorem mem_patterns_iff {p : Pattern} :
    p ∈ patterns ↔ p = .word ∨ p = .number ∨ p = .blanks ∨ p = .newline ∨
      ∃ kind c, Kind.symbol? kind = some c ∧ p = .symbol kind c := by
  constructor
  · intro h
    simp only [patterns, List.mem_cons, List.not_mem_nil, or_false] at h
    obtain h | h | h | h | h := h
    · exact .inl h
    · exact .inr (.inl h)
    · exact .inr (.inr (.inl h))
    · exact .inr (.inr (.inr (.inl h)))
    · refine .inr (.inr (.inr (.inr ?_)))
      rcases h with h | h | h | h | h | h | h | h | h | h | h | h
      all_goals exact ⟨_, _, rfl, h⟩
  · rintro (rfl | rfl | rfl | rfl | ⟨kind, c, hc, rfl⟩)
    · simp [patterns]
    · simp [patterns]
    · simp [patterns]
    · simp [patterns]
    · cases kind <;> cases hc <;> simp [patterns]

namespace Handler

/-- The token that is made of a lexeme. -/
def token? (handler : Handler) (lexeme : List Char) (position : Position) : Option Token :=
  match handler with
  | .keep kind => some ⟨kind, String.ofList lexeme, position⟩
  | .skip => none
  | .newline => some ⟨.newline, "\n", position⟩
  | .fixed kind text => some ⟨kind, text, position⟩

def lines : Handler → UInt32
  | .newline => 1
  | .keep _ | .skip | .fixed .. => 0

/-- A text that is fixed is the lexeme. -/
def Fits (handler : Handler) (lexeme : List Char) : Prop :=
  match handler with
  | .keep _ | .skip => True
  | .newline => ['\n'] = lexeme
  | .fixed _ text => text.toList = lexeme

end Handler

theorem fits_of_mem_patterns {p : Pattern} {text lexeme : List Char} (hp : p ∈ patterns)
    (h : p.shape.find? text = some lexeme) : p.handler.Fits lexeme := by
  obtain ⟨c, rest, rfl, hfirst, rfl⟩ := Shape.find?_eq_some_iff.1 h
  obtain rfl | rfl | rfl | rfl | ⟨kind, d, -, rfl⟩ := mem_patterns_iff.1 hp
  · trivial
  · trivial
  · trivial
  · obtain rfl : c = '\n' := of_decide_eq_true hfirst
    simp [Handler.Fits, Pattern.newline]
  · obtain rfl : c = d := of_decide_eq_true hfirst
    simp [Handler.Fits, Pattern.symbol]

/-- What is fitted again is what was found, so the handler takes just the lexeme. -/
theorem Lexer.handle?_eq {lexer : Lexer} {p : Pattern} {text lexeme : List Char}
    (hrest : lexer.remainder? = some (String.ofList text))
    (hfind : p.shape.find? text = some lexeme) (hfits : p.handler.Fits lexeme) :
    lexer.handle? p = some
      { lexer with
        offset := lexer.offset + (byteSize lexeme).toUInt64
        line := lexer.line + p.handler.lines
        tokens := lexer.tokens ++ (p.handler.token? lexeme lexer.position).toList } := by
  have hsize : lexer.matchedSize? p.shape = some (byteSize lexeme) := by
    simp [matchedSize?, hrest, hfind]
  have hslice : lexer.slice? (byteSize lexeme) = some (String.ofList lexeme) := by
    obtain ⟨-, rest, rfl⟩ := Shape.find?_eq_some hfind
    simp [slice?, hrest, takeBytes?_append]
  obtain ⟨shape, handler⟩ := p
  cases handler with
  | keep kind =>
    simp [handle?, hsize, hslice, Handler.lines, Handler.token?, push, move, Window.advance]
  | skip => simp [handle?, hsize, Handler.lines, Handler.token?, move, Window.advance]
  | newline =>
    obtain rfl : ['\n'] = lexeme := hfits
    rfl
  | fixed kind text =>
    obtain rfl : text.toList = lexeme := hfits
    rw [byteSize_toList]
    simp [handle?, Handler.lines, Handler.token?, push, move, Window.advance]

end Scopewise.Token
