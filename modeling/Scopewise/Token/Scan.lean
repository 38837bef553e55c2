import Scopewise.Diagnostic
import Scopewise.Token.Basic

namespace Scopewise.Token

def isWordStart (c : Char) : Bool :=
  c.isAlpha || c = '_'

def isWordChar (c : Char) : Bool :=
  c.isAlphanum || c = '_'

def isSpace (c : Char) : Bool :=
  c = ' '

/-- Size of a text in bytes of UTF-8. -/
def byteSize (text : List Char) : Nat :=
  text.foldr (fun c size => c.utf8Size + size) 0

/-- A place in a source text: what is left of it, how many bytes lie before, and the line. -/
structure Cursor where
  rest : List Char
  offset : Nat := 0
  line : UInt32 := 1
deriving DecidableEq, Repr

namespace Cursor

def ofSource (source : String) : Cursor :=
  { rest := source.toList }

def lexeme (p : Char → Bool) (cursor : Cursor) : List Char :=
  cursor.rest.takeWhile p

/-- The place after the longest run of characters in `p`. -/
def skip (p : Char → Bool) (cursor : Cursor) : Cursor :=
  { cursor with
    rest := cursor.rest.dropWhile p
    offset := cursor.offset + byteSize (cursor.lexeme p) }

/-- The place after the character `c`, with `rest` behind it. -/
def past (c : Char) (rest : List Char) (cursor : Cursor) : Cursor :=
  { cursor with rest, offset := cursor.offset + c.utf8Size }

inductive Step
  | finished
  | read (token? : Option Token) (next : Cursor)
  | stuck (character : Char)
deriving DecidableEq, Repr

/-- One lexeme of a text labelled `file`: the longest word, the longest run of digits or of spaces,
a line feed, or a single symbol. Spaces are dropped. -/
def step (file : String) (cursor : Cursor) : Step :=
  let token (kind : Kind) (text : List Char) : Option Token :=
    some ⟨kind, String.ofList text, cursor.line, file⟩
  match cursor.rest with
  | [] => .finished
  | c :: rest =>
    if isWordStart c then
      .read (token .identifier (cursor.lexeme isWordChar)) (cursor.skip isWordChar)
    else if c.isDigit then
      .read (token .integer (cursor.lexeme Char.isDigit)) (cursor.skip Char.isDigit)
    else if isSpace c then
      .read none (cursor.skip isSpace)
    else if c = '\n' then
      .read (token .newline [c]) { cursor.past c rest with line := cursor.line + 1 }
    else
      match Kind.ofSymbol? c with
      | some kind => .read (token kind [c]) (cursor.past c rest)
      | none => .stuck c

end Cursor

/-- Tokens in order, and the diagnostic that ended the scan if it stopped early. -/
structure Scan where
  tokens : List Token
  failure? : Option Diagnostic
deriving DecidableEq, Repr

/-- At most `n` steps; a step takes at least one character. -/
def scanFrom (file : String) : Nat → Cursor → Scan
  | 0, _ => ⟨[], none⟩
  | n + 1, cursor =>
    match cursor.step file with
    | .finished => ⟨[], none⟩
    | .stuck c => ⟨[], some ⟨.unexpectedCharacter c, cursor.line, file⟩⟩
    | .read token? next =>
      let after := scanFrom file n next
      { after with tokens := token?.toList ++ after.tokens }

def scan (source file : String) : Scan :=
  scanFrom file source.length (Cursor.ofSource source)

/-- The label of a text that has none of its own. -/
def shellLabel : String := "shell"

def tokenize (source : String) (file? : Option String) : Except Diagnostic (List Token) :=
  let result := scan source (file?.getD shellLabel)
  match result.failure? with
  | some diagnostic => .error diagnostic
  | none => .ok result.tokens

example : (scan "x1 =\n12ab" shellLabel).tokens.map (fun t => (t.kind, t.value, t.line)) =
    [(.identifier, "x1", 1), (.assignment, "=", 1), (.newline, "\n", 1), (.integer, "12", 2),
      (.identifier, "ab", 2)] := by
  decide +kernel

end Scopewise.Token
