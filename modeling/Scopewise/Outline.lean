import Scopewise.Text.Quoted

namespace Scopewise

/-- A tree of named nodes with labelled fields. -/
inductive Outline
  | atom (text : String)
  | list (items : List Outline)
  | wrap (name : String) (payload : Outline)
  | record (name : String) (fields : List (String × Outline))
deriving Repr, Inhabited

namespace Outline

def quoted (text : String) : Outline :=
  .atom (Text.quote text)

inductive Layout
  | oneLine
  | indented
deriving DecidableEq, Repr

namespace Layout

def lineBreak (depth : Nat) : List Char :=
  '\n' :: List.replicate (4 * depth) ' '

/-- What stands before the first item of a node at a nesting `depth`. On one line the braces of a
record are kept apart from its fields by `pad`. -/
def before (depth : Nat) (pad : List Char) : Layout → List Char
  | .oneLine => pad
  | .indented => lineBreak (depth + 1)

def between (depth : Nat) : Layout → List Char
  | .oneLine => [',', ' ']
  | .indented => ',' :: lineBreak (depth + 1)

/-- What stands after the last item: when indented, it too has a comma. -/
def after (depth : Nat) (pad : List Char) : Layout → List Char
  | .oneLine => pad
  | .indented => ',' :: lineBreak depth

end Layout

mutual

/-- The text of an outline at a nesting `depth`, followed by `rest`. -/
def write (layout : Layout) (depth : Nat) : Outline → List Char → List Char
  | .atom text, rest => text.toList ++ rest
  | .list [], rest => '[' :: ']' :: rest
  | .list (item :: items), rest =>
    '[' :: (layout.before depth [] ++ item.write layout (depth + 1)
      (writeItems layout depth items (layout.after depth [] ++ ']' :: rest)))
  | .wrap name payload, rest =>
    name.toList ++ '(' :: (layout.before depth [] ++ payload.write layout (depth + 1)
      (layout.after depth [] ++ ')' :: rest))
  | .record name [], rest => name.toList ++ rest
  | .record name ((label, value) :: fields), rest =>
    name.toList ++ ' ' :: '\x7b' :: (layout.before depth [' '] ++ label.toList ++ ':' :: ' ' ::
      value.write layout (depth + 1)
        (writeFields layout depth fields (layout.after depth [' '] ++ '\x7d' :: rest)))

/-- The items after the first one. -/
def writeItems (layout : Layout) (depth : Nat) : List Outline → List Char → List Char
  | [], rest => rest
  | item :: items, rest =>
    layout.between depth ++ item.write layout (depth + 1) (writeItems layout depth items rest)

/-- The fields after the first one. -/
def writeFields (layout : Layout) (depth : Nat) : List (String × Outline) → List Char → List Char
  | [], rest => rest
  | (label, value) :: fields, rest =>
    layout.between depth ++ label.toList ++ ':' :: ' ' ::
      value.write layout (depth + 1) (writeFields layout depth fields rest)

end

def render (layout : Layout) (outline : Outline) : String :=
  String.ofList (outline.write layout 0 [])

def oneLine (outline : Outline) : String :=
  outline.render .oneLine

def indented (outline : Outline) : String :=
  outline.render .indented

example : (record "P" [("x", atom "1"), ("y", list [])]).oneLine = "P \x7b x: 1, y: [] \x7d" := by
  decide +kernel

example : (list [wrap "N" (atom "1")]).indented = "[\n    N(\n        1,\n    ),\n]" := by
  decide +kernel

end Outline

end Scopewise
