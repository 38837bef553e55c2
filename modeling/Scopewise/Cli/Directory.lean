import Scopewise.Cli.Report

namespace Scopewise.Cli

/-- A place by the names that lead to it, from the root or from so many levels above the working
directory. -/
inductive Place
  | root (names : List String)
  | working (above : Nat) (names : List String)
deriving DecidableEq, Repr

namespace Place

def parent : Place → Place
  | .root names => .root names.dropLast
  | .working above [] => .working (above + 1) []
  | .working above names => .working above names.dropLast

def child (name : String) : Place → Place
  | .root names => .root (names ++ [name])
  | .working above names => .working above (names ++ [name])

/-- Where a name leads if everything on the way is a directory. -/
def go (place : Place) (name : String) : Place :=
  if name = "" ∨ name = "." then place
  else if name = ".." then place.parent
  else place.child name

/-- Where a path begins. -/
def start (path : String) : Place :=
  if path.toList.head? = some '/' then .root [] else .working 0 []

/-- The root, the working directory and what lies above it are directories in any case. -/
def isTop : Place → Bool
  | .root names | .working _ names => names.isEmpty

end Place

/-- A working directory in memory. Outside of it only what every system has is there. -/
structure Directory where
  directories : List Place
  files : List (Place × ByteArray)

namespace Directory

/-- What every system has. -/
def empty : Directory where
  directories := [.root ["dev"], .root ["tmp"]]
  files := [(.root ["dev", "null"], ByteArray.empty)]

/-- Puts a file at a path, with the directories on the way to it. -/
def add (directory : Directory) (path : String) (contents : ByteArray) : Directory :=
  let names := path.splitOn "/"
  let way := names.dropLast.foldl
    (fun (places, place) name => (place.go name :: places, place.go name))
    (directory.directories, Place.start path)
  { directories := way.1
    files := (way.2.go (names.getLast?.getD ""), contents) :: directory.files }

def ofFiles (files : List (String × ByteArray)) : Directory :=
  files.foldl (fun directory (path, contents) => directory.add path contents) empty

def isDirectory (directory : Directory) (place : Place) : Bool :=
  place.isTop || directory.directories.contains place

def file? (directory : Directory) (place : Place) : Option ByteArray :=
  directory.files.lookup place

/-- The longest name and the longest path, in bytes. -/
def maxName : Nat := 255

@[inherit_doc maxName]
def maxPath : Nat := 4095

/-- One name further. -/
def step (directory : Directory) (place : Place) (name : String) : Except ReadFault Place :=
  let next := place.go name
  if !directory.isDirectory place then .error .notDirectory
  else if maxName < name.utf8ByteSize then .error .nameTooLong
  else if directory.isDirectory next || (directory.file? next).isSome then .ok next
  else .error .missing

def read (directory : Directory) (path : String) : Except ReadFault String := do
  if path = "" then throw .missing
  if maxPath < path.utf8ByteSize then throw .nameTooLong
  let place ← (path.splitOn "/").foldlM directory.step (.start path)
  match directory.file? place with
  | none => throw .isDirectory
  | some contents =>
    match String.fromUTF8? contents with
    | some text => return text
    | none => throw .notText

/-- The outcome of a command line in the directory. -/
def outcome (directory : Directory) (args : List String) : Outcome :=
  Id.run (run (fun path => pure (directory.read path)) args)

end Directory

end Scopewise.Cli
