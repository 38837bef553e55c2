namespace Scopewise

/-- A line of the text that carries the label `file`. -/
structure Position where
  line : UInt32
  file : String
deriving DecidableEq, Repr, Inhabited

namespace Source

/-- The line that has `n` line feeds before it. -/
def lineAfter? : Nat → List Char → Option (List Char)
  | 0, text => some (text.takeWhile (· ≠ '\n'))
  | n + 1, text =>
    match text.dropWhile (· ≠ '\n') with
    | [] => none
    | _ :: rest => lineAfter? n rest

/-- The text of a line without its line feed, which alone ends a line; there is no line 0. -/
def line? (source : String) (line : UInt32) : Option String :=
  if line = 0 then none
  else (lineAfter? (line.toNat - 1) source.toList).map String.ofList

example : line? "a\n\nb\r\n" 3 = some "b\r" := by decide

example : line? "a\n" 2 = some "" ∧ line? "a\n" 3 = none ∧ line? "a" 0 = none := by decide

end Source

end Scopewise
