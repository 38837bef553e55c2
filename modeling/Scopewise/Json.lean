namespace Scopewise

/-- Members of an object keep the order they are given in. -/
inductive Json
  | null
  | bool (value : Bool)
  | integer (value : Int)
  | string (value : String)
  | array (items : List Json)
  | object (members : List (String × Json))
deriving Repr, Inhabited

namespace Json

/-- How a text is laid out: on one line, or with every item and member on a line of its own that is
indented by `width` more spaces per level. -/
inductive Layout
  | compact
  | indented (width : Nat)
deriving DecidableEq, Repr

namespace Layout

/-- What stands before an item at a nesting `depth`. -/
def lineBreak (depth : Nat) : Layout → List Char
  | .compact => []
  | .indented width => '\n' :: List.replicate (width * depth) ' '

def colon : Layout → List Char
  | .compact => [':']
  | .indented _ => [':', ' ']

end Layout

/-- Quotes, backslashes and the controls below the space are escaped, nothing else. -/
def escape (c : Char) : List Char :=
  if c = '"' then ['\\', '"']
  else if c = '\\' then ['\\', '\\']
  else if c = '\x08' then ['\\', 'b']
  else if c = '\t' then ['\\', 't']
  else if c = '\n' then ['\\', 'n']
  else if c = '\x0c' then ['\\', 'f']
  else if c = '\r' then ['\\', 'r']
  else if c.toNat < 0x20 then
    ['\\', 'u', '0', '0', Nat.digitChar (c.toNat / 16), Nat.digitChar (c.toNat % 16)]
  else [c]

def writeString (text : String) (rest : List Char) : List Char :=
  '"' :: (text.toList.flatMap escape ++ '"' :: rest)

def writeInt (value : Int) (rest : List Char) : List Char :=
  match value with
  | .ofNat n => Nat.toDigits 10 n ++ rest
  | .negSucc n => '-' :: (Nat.toDigits 10 (n + 1) ++ rest)

mutual

/-- The text of a value at a nesting `depth`, followed by `rest`: written so, it takes time in
proportion to its length. -/
def write (layout : Layout) (depth : Nat) : Json → List Char → List Char
  | .null, rest => "null".toList ++ rest
  | .bool true, rest => "true".toList ++ rest
  | .bool false, rest => "false".toList ++ rest
  | .integer value, rest => writeInt value rest
  | .string value, rest => writeString value rest
  | .array [], rest => '[' :: ']' :: rest
  | .array (item :: items), rest =>
    '[' :: (layout.lineBreak (depth + 1) ++ item.write layout (depth + 1)
      (writeItems layout (depth + 1) items (layout.lineBreak depth ++ ']' :: rest)))
  | .object [], rest => '\x7b' :: '\x7d' :: rest
  | .object ((key, value) :: members), rest =>
    '\x7b' :: (layout.lineBreak (depth + 1) ++ writeString key
      (layout.colon ++ value.write layout (depth + 1)
        (writeMembers layout (depth + 1) members (layout.lineBreak depth ++ '\x7d' :: rest))))

/-- The items after the first one of an array, each behind a comma. -/
def writeItems (layout : Layout) (depth : Nat) : List Json → List Char → List Char
  | [], rest => rest
  | item :: items, rest =>
    ',' :: (layout.lineBreak depth ++ item.write layout depth (writeItems layout depth items rest))

/-- The members after the first one of an object, each behind a comma. -/
def writeMembers (layout : Layout) (depth : Nat) : List (String × Json) → List Char → List Char
  | [], rest => rest
  | (key, value) :: members, rest =>
    ',' :: (layout.lineBreak depth ++ writeString key (layout.colon ++ value.write layout depth
      (writeMembers layout depth members rest)))

end

def render (layout : Layout) (value : Json) : String :=
  String.ofList (value.write layout 0 [])

def compact (value : Json) : String :=
  value.render .compact

def pretty (value : Json) : String :=
  value.render (.indented 2)

example : (object [("a", array [integer (-1), null]), ("b", array [])]).pretty =
    "\x7b\n  \"a\": [\n    -1,\n    null\n  ],\n  \"b\": []\n\x7d" := by
  decide +kernel

end Json

end Scopewise
