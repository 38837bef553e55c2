namespace Scopewise.Text

/-- First and last code point of each run of white space, in increasing order: the White_Space
property of Unicode. -/
def blankRanges : List (Nat × Nat) :=
  [(0x09, 0x0d), (0x20, 0x20), (0x85, 0x85), (0xa0, 0xa0), (0x1680, 0x1680), (0x2000, 0x200a),
   (0x2028, 0x2029), (0x202f, 0x202f), (0x205f, 0x205f), (0x3000, 0x3000)]

def isBlank (c : Char) : Bool :=
  blankRanges.any fun range => decide (range.1 ≤ c.toNat) && decide (c.toNat ≤ range.2)

/-- The text without the white space it ends in. -/
def trimEnd (text : String) : String :=
  String.ofList (text.toList.reverse.dropWhile isBlank).reverse

example : (blankRanges.map fun range => range.2 + 1 - range.1).sum = 25 := by decide

example : trimEnd "a b \t\u2003" = "a b" := by decide

end Scopewise.Text
