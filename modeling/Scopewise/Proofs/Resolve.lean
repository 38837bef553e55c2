import Scopewise.Proofs.Scope.Chain
import Scopewise.Tree.Basic

namespace Scopewise

open Scope (Chain)

namespace Expr

mutual

/-- Whether every name that the expression uses is visible. -/
def resolves (chain : Chain) : Expr → Bool
  | .integer _ => true
  | .variable name => chain.hasVariable name
  | .call name args => chain.hasFunction name && resolvesAll chain args
  | .unary _ operand => resolves chain operand
  | .binary _ left right => resolves chain left && resolves chain right

def resolvesAll (chain : Chain) : List Expr → Bool
  | [] => true
  | e :: es => resolves chain e && resolvesAll chain es

end

end Expr

namespace Param

def declareAll (chain : Chain) : List Param → Chain
  | [] => chain
  | p :: ps => declareAll (chain.declareVariable p.name .immutable) ps

/-- Whether no two parameters have one name. -/
def resolvesAll (chain : Chain) : List Param → Bool
  | [] => true
  | p :: ps =>
    !chain.hasLocalVariable p.name && resolvesAll (chain.declareVariable p.name .immutable) ps

/-- Parameters change the innermost frame only. -/
theorem exists_frame_declareAll (frame : Scope.Frame) (outer : Chain) (ps : List Param) :
    ∃ frame', declareAll (frame :: outer) ps = frame' :: outer := by
  induction ps generalizing frame with
  | nil => exact ⟨frame, rfl⟩
  | cons p ps ih => exact ih _

end Param

namespace Stmt

/-- The chain behind the statement. -/
def declare (chain : Chain) : Stmt → Chain
  | .function name _ _ _ => chain.declareFunction name
  | .binding mutability name _ => chain.declareVariable name mutability
  | .returning _ | .bare _ => chain

mutual

/-- Whether every name that the statement uses is visible where it is used, and no scope declares
two variables or two functions of one name. -/
def resolves (chain : Chain) : Stmt → Bool
  | .function name params _ body =>
    let inner := (chain.declareFunction name).enter
    !chain.hasLocalFunction name && Param.resolvesAll inner params &&
      resolvesAll (Param.declareAll inner params) body
  | .binding _ name value => !chain.hasLocalVariable name && value.resolves chain
  | .returning value | .bare value => value.resolves chain

def resolvesAll (chain : Chain) : List Stmt → Bool
  | [] => true
  | s :: ss => resolves chain s && resolvesAll (s.declare chain) ss

end

/-- Whether a program resolves where only the function `echo` is declared. -/
def programResolves (program : List Stmt) : Bool :=
  resolvesAll [{ functions := ["echo"] }] program

example : programResolves
    [.function "f" [⟨"a", "int"⟩] .int [.returning (.call "f" [.variable "a"])],
      .binding .mutable "f" (.call "f" []), .bare (.variable "f")] = true := by
  decide

example : programResolves [.binding .mutable "x" (.variable "x")] = false ∧
    programResolves [.function "echo" [] .void []] = false := by
  decide

end Stmt

end Scopewise
