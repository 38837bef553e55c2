import Scopewise.Proofs.Widening

namespace Scopewise

open Scope (Chain Frame)

namespace Scope.Chain

/-- What is recorded when a variable is declared: the innermost binding of the name decides. -/
def announce (chain : Chain) (name : String) (mutability : Mutability) : Event :=
  match chain.mutability? name with
  | some old => .variableShadowed name old mutability
  | none => .variableDeclared name mutability

/-- The line that is written then. -/
def announcement (chain : Chain) (name : String) (mutability : Mutability) : String :=
  match chain.mutability? name with
  | some old =>
    "DEBUG `" ++ name ++ "` shadows " ++ old.describe ++ " binding as " ++ mutability.describe
  | none => "DEBUG declaring " ++ mutability.describe ++ " variable `" ++ name ++ "`"

theorem describe_announce (chain : Chain) (name : String) (mutability : Mutability) :
    (chain.announce name mutability).describe = chain.announcement name mutability := by
  unfold announce announcement
  cases chain.mutability? name <;> rfl

end Scope.Chain

namespace Param

def replayAll (chain : Chain) : List Param → List Event
  | [] => []
  | p :: ps =>
    chain.announce p.name .immutable ::
      replayAll (chain.declareVariable p.name .immutable) ps

def transcriptAll (chain : Chain) : List Param → List String
  | [] => []
  | p :: ps =>
    chain.announcement p.name .immutable ::
      transcriptAll (chain.declareVariable p.name .immutable) ps

theorem map_describe_replayAll (chain : Chain) (params : List Param) :
    (replayAll chain params).map Event.describe = transcriptAll chain params := by
  induction params generalizing chain with
  | nil => rfl
  | cons p ps ih => rw [replayAll, List.map_cons, Chain.describe_announce, ih, transcriptAll]

end Param

namespace Stmt

mutual

/-- What a statement records in the chain of open frames. -/
def replay (chain : Chain) : Stmt → List Event
  | .function name params _ body =>
    let inner := (chain.declareFunction name).enter
    .functionDeclared name :: .entered (chain.length + 1) ::
      (Param.replayAll inner params ++ replayAll (Param.declareAll inner params) body ++
        [.exited chain.length])
  | .binding mutability name _ => [chain.announce name mutability]
  | .returning _ | .bare _ => []

def replayAll (chain : Chain) : List Stmt → List Event
  | [] => []
  | s :: ss => replay chain s ++ replayAll (s.declare chain) ss

end

/-- The journal of a program: its own scope with the built-in function `echo`, its statements, and
their number. -/
def replayProgram (program : List Stmt) : List Event :=
  .entered 1 :: .functionDeclared "echo" ::
    (replayAll [{ functions := ["echo"] }] program ++ [.exited 0, .parsed program.length])

mutual

/-- The lines of a statement. -/
def transcript (chain : Chain) : Stmt → List String
  | .function name params _ body =>
    let inner := (chain.declareFunction name).enter
    ("DEBUG declaring function `" ++ name ++ "`") ::
      ("DEBUG entered scope at depth " ++ toString (chain.length + 1)) ::
        (Param.transcriptAll inner params ++ transcriptAll (Param.declareAll inner params) body ++
          ["DEBUG exited scope, depth now " ++ toString chain.length])
  | .binding mutability name _ => [chain.announcement name mutability]
  | .returning _ | .bare _ => []

def transcriptAll (chain : Chain) : List Stmt → List String
  | [] => []
  | s :: ss => transcript chain s ++ transcriptAll (s.declare chain) ss

end

def transcriptProgram (program : List Stmt) : List String :=
  "DEBUG entered scope at depth 1" :: "DEBUG declaring function `echo`" ::
    (transcriptAll [{ functions := ["echo"] }] program ++
      ["DEBUG exited scope, depth now 0",
        "DEBUG parsed " ++ toString program.length ++ " top-level statements"])

mutual

theorem map_describe_replay (chain : Chain) (s : Stmt) :
    (replay chain s).map Event.describe = transcript chain s := by
  cases s with
  | function name params type body =>
    rw [replay, transcript, List.map_cons, List.map_cons, List.map_append, List.map_append,
      Param.map_describe_replayAll, map_describe_replayAll _ body]
    rfl
  | binding mutability name value =>
    rw [replay, transcript, List.map_singleton, Chain.describe_announce]
  | returning | bare => rw [replay, transcript, List.map_nil]

theorem map_describe_replayAll (chain : Chain) (ss : List Stmt) :
    (replayAll chain ss).map Event.describe = transcriptAll chain ss := by
  cases ss with
  | nil => rw [replayAll, transcriptAll, List.map_nil]
  | cons s ss =>
    rw [replayAll, transcriptAll, List.map_append, map_describe_replay chain s,
      map_describe_replayAll _ ss]

end

/-- The replay of a program reads as its transcript. -/
theorem map_describe_replayProgram (program : List Stmt) :
    (replayProgram program).map Event.describe = transcriptProgram program := by
  rw [replayProgram, transcriptProgram, List.map_cons, List.map_cons, List.map_append,
    map_describe_replayAll]
  rfl

example : transcriptProgram [.binding .mutable "x" (.integer 1),
      .function "f" [⟨"x", "int"⟩, ⟨"y", "int"⟩] .int
        [.binding .mutable "y" (.variable "x"), .returning (.variable "y")]] =
    ["DEBUG entered scope at depth 1", "DEBUG declaring function `echo`",
      "DEBUG declaring mutable variable `x`", "DEBUG declaring function `f`",
      "DEBUG entered scope at depth 2", "DEBUG `x` shadows mutable binding as immutable",
      "DEBUG declaring immutable variable `y`", "DEBUG `y` shadows immutable binding as mutable",
      "DEBUG exited scope, depth now 1", "DEBUG exited scope, depth now 0",
      "DEBUG parsed 2 top-level statements"] := by
  decide +kernel

theorem exists_frame_declare (frame : Frame) (outer : Chain) (s : Stmt) :
    ∃ frame', s.declare (frame :: outer) = frame' :: outer := by
  cases s <;> exact ⟨_, rfl⟩

/-- Statements change the innermost frame only. -/
theorem exists_frame_declareAll (frame : Frame) (outer : Chain) (ss : List Stmt) :
    ∃ frame', declareAll (frame :: outer) ss = frame' :: outer := by
  induction ss generalizing frame with
  | nil => exact ⟨frame, rfl⟩
  | cons s ss ih =>
    obtain ⟨frame', hframe⟩ := exists_frame_declare frame outer s
    obtain ⟨frame'', hframe'⟩ := ih frame'
    exact ⟨frame'', by rw [declareAll, List.foldl_cons, hframe]; exact hframe'⟩

end Stmt

end Scopewise
