import Scopewise.Token.Basic

namespace Scopewise.Token

/-- What is left of a text after `n` bytes, if they end where a character ends. -/
def dropBytes? : Nat → List Char → Option (List Char)
  | 0, text => some text
  | _ + 1, [] => none
  | n + 1, c :: text =>
    if c.utf8Size ≤ n + 1 then dropBytes? (n + 1 - c.utf8Size) text else none

/-- A view of a source text that is addressed by bytes. The offset moves without any check, so it
may come to lie inside a character or past the end; it is a machine word, and moving past the
largest one goes round to zero. -/
structure Window where
  source : String
  file : String
  offset : UInt64 := 0
  line : UInt32 := 1
deriving DecidableEq, Repr

namespace Window

def advance (n : UInt64) (window : Window) : Window :=
  { window with offset := window.offset + n }

def remainder? (window : Window) : Option String :=
  (dropBytes? window.offset.toNat window.source.toList).map String.ofList

/-- The next character, `some none` at the exact end. -/
def peek? (window : Window) : Option (Option Char) :=
  (dropBytes? window.offset.toNat window.source.toList).map List.head?

def atEnd (window : Window) : Bool :=
  window.source.utf8ByteSize ≤ window.offset.toNat

def position (window : Window) : Position :=
  ⟨window.line, window.file⟩

end Window

end Scopewise.Token
