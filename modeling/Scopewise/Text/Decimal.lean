namespace Scopewise.Text

/-- The value of one or more ASCII digits, most significant first. -/
def readDigits? (digits : List Char) : Option Nat :=
  if digits ≠ [] ∧ digits.all Char.isDigit then some (Nat.ofDigitChars 10 digits 0) else none

/-- The value of an optional single sign before digits. -/
def readSigned? : List Char → Option Int
  | '-' :: digits => (readDigits? digits).map fun n => -(n : Int)
  | '+' :: digits => (readDigits? digits).map Int.ofNat
  | digits => (readDigits? digits).map Int.ofNat

/-- The signed 64 bit integer that a text spells, if it spells one in range. -/
def readInt64? (text : String) : Option Int64 :=
  match readSigned? text.toList with
  | some value =>
    if Int64.minValue.toInt ≤ value ∧ value ≤ Int64.maxValue.toInt then some (Int64.ofInt value)
    else none
  | none => none

example : readInt64? "-9223372036854775808" = some Int64.minValue := by decide +kernel

example : readInt64? "9223372036854775808" = none := by decide +kernel

example : readInt64? "+" = none ∧ readInt64? "--1" = none ∧ readInt64? "" = none := by
  decide +kernel

end Scopewise.Text
