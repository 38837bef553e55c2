import Scopewise.Text.Unprintable

namespace Scopewise.Text

/-- The escape of a character by its code point, in lower case hexadecimal without padding. -/
def codePoint (c : Char) : List Char :=
  '\\' :: 'u' :: '\x7b' :: Nat.toDigits 16 c.toNat ++ ['\x7d']

def quoteChar (c : Char) : List Char :=
  if c = '\x00' then ['\\', '0']
  else if c = '\t' then ['\\', 't']
  else if c = '\r' then ['\\', 'r']
  else if c = '\n' then ['\\', 'n']
  else if c = '\\' then ['\\', '\\']
  else if c = '"' then ['\\', '"']
  else if isUnprintable c then codePoint c
  else [c]

/-- An apostrophe is kept as it is: only the double quote delimits. -/
def quote (text : String) : String :=
  String.ofList ('"' :: (text.toList.flatMap quoteChar ++ ['"']))

example : quote "it's \"\\\"\n\x07\u00e9" = "\"it's \\\"\\\\\\\"\\n\\u\x7b7\x7d\u00e9\"" := by
  decide +kernel

end Scopewise.Text
