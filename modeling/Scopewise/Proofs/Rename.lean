import Mathlib.Data.List.Forall2
import Scopewise.Scope.Table
import Scopewise.Tree.Basic

namespace Scopewise

variable {name : String → String}

namespace Expr

mutual

def rename (name : String → String) : Expr → Expr
  | .integer value => .integer value
  | .variable x => .variable (name x)
  | .call f args => .call (name f) (renameAll name args)
  | .unary op operand => .unary op (rename name operand)
  | .binary op left right => .binary op (rename name left) (rename name right)

def renameAll (name : String → String) : List Expr → List Expr
  | [] => []
  | e :: es => rename name e :: renameAll name es

end

mutual

theorem rename_id : (e : Expr) → e.rename id = e
  | .integer _ | .variable _ => rfl
  | .call _ args => by rw [rename, renameAll_id args]; rfl
  | .unary _ operand => by rw [rename, rename_id operand]
  | .binary _ left right => by rw [rename, rename_id left, rename_id right]

theorem renameAll_id : (es : List Expr) → renameAll id es = es
  | [] => rfl
  | e :: es => by rw [renameAll, rename_id e, renameAll_id es]

end

end Expr

/-- A parameter's type is a name as well. -/
def Param.rename (name : String → String) (p : Param) : Param :=
  ⟨name p.name, name p.type⟩

namespace Stmt

mutual

def rename (name : String → String) : Stmt → Stmt
  | .function f params type body =>
    .function (name f) (params.map (Param.rename name)) type (renameAll name body)
  | .binding mutability x value => .binding mutability (name x) (value.rename name)
  | .returning value => .returning (value.rename name)
  | .bare value => .bare (value.rename name)

def renameAll (name : String → String) : List Stmt → List Stmt
  | [] => []
  | s :: ss => rename name s :: renameAll name ss

end

mutual

theorem rename_id : (s : Stmt) → s.rename id = s
  | .function _ params _ body => by
    have hparams : params.map (Param.rename id) = params := List.map_id params
    rw [rename, hparams, renameAll_id body]
    rfl
  | .binding _ _ value => by rw [rename, value.rename_id]; rfl
  | .returning value => by rw [rename, value.rename_id]
  | .bare value => by rw [rename, value.rename_id]

theorem renameAll_id : (ss : List Stmt) → renameAll id ss = ss
  | [] => rfl
  | s :: ss => by rw [renameAll, rename_id s, renameAll_id ss]

end

end Stmt

/-- The second set holds the new names of the first. -/
def NameSet.Renamed (name : String → String) (set set' : NameSet) : Prop :=
  ∀ x, name x ∈ set' ↔ x ∈ set

namespace NameSet.Renamed

variable {set set' : NameSet}

theorem contains (h : set.Renamed name set') (x : String) :
    set'.contains (name x) = set.contains x := by
  apply Bool.eq_iff_iff.2
  rw [contains_iff, contains_iff]
  exact h x

theorem insert (h : set.Renamed name set') (hname : name.Injective) (x : String) :
    (set.insert x).Renamed name (set'.insert (name x)) := by
  intro y
  rw [mem_insert, mem_insert, h y, hname.eq_iff]

theorem erase (h : set.Renamed name set') (hname : name.Injective) (x : String) :
    (set.erase x).Renamed name (set'.erase (name x)) := by
  intro y
  rw [mem_erase, mem_erase, h y, hname.ne_iff]

end NameSet.Renamed

namespace Scope

/-- The sets of the scopes correspond one by one. -/
structure Renamed (name : String → String) (scope scope' : Scope) : Prop where
  mutables : scope.mutables.Renamed name scope'.mutables
  immutables : scope.immutables.Renamed name scope'.immutables
  functions : scope.functions.Renamed name scope'.functions
  localVariables : scope.localVariables.Renamed name scope'.localVariables
  localFunctions : scope.localFunctions.Renamed name scope'.localFunctions

namespace Renamed

variable {scope scope' : Scope}

theorem empty : Renamed name {} {} where
  mutables _ := iff_of_false NameSet.not_mem_empty NameSet.not_mem_empty
  immutables _ := iff_of_false NameSet.not_mem_empty NameSet.not_mem_empty
  functions _ := iff_of_false NameSet.not_mem_empty NameSet.not_mem_empty
  localVariables _ := iff_of_false NameSet.not_mem_empty NameSet.not_mem_empty
  localFunctions _ := iff_of_false NameSet.not_mem_empty NameSet.not_mem_empty

theorem child (h : Renamed name scope scope') : Renamed name scope.child scope'.child :=
  { h with localVariables := empty.localVariables, localFunctions := empty.localFunctions }

theorem declareVariable (h : Renamed name scope scope') (hname : name.Injective) (x : String)
    (m : Mutability) :
    Renamed name (scope.declareVariable x m) (scope'.declareVariable (name x) m) := by
  cases m with
  | mutable =>
    exact { h with
      mutables := h.mutables.insert hname x
      immutables := h.immutables.erase hname x
      localVariables := h.localVariables.insert hname x }
  | immutable =>
    exact { h with
      mutables := h.mutables.erase hname x
      immutables := h.immutables.insert hname x
      localVariables := h.localVariables.insert hname x }

theorem declareFunction (h : Renamed name scope scope') (hname : name.Injective) (x : String) :
    Renamed name (scope.declareFunction x) (scope'.declareFunction (name x)) :=
  { h with
    functions := h.functions.insert hname x
    localFunctions := h.localFunctions.insert hname x }

end Renamed

def Change.rename (name : String → String) : Change → Change
  | .enter => .enter
  | .exit => .exit
  | .variable x mutability => .variable (name x) mutability
  | .function x => .function (name x)

/-- As many scopes, and each corresponds to the one at its place. -/
def Table.Renamed (name : String → String) (table table' : Table) : Prop :=
  List.Forall₂ (Scope.Renamed name) table.scopes table'.scopes

namespace Table.Renamed

variable {table table' : Table}

theorem hasVariable (h : table.Renamed name table') (x : String) :
    table'.hasVariable (name x) = table.hasVariable x := by
  obtain ⟨scopes⟩ := table
  obtain ⟨scopes'⟩ := table'
  cases h with
  | nil => rfl
  | cons hscope _ =>
    change (_ || _) = (_ || _)
    rw [hscope.mutables.contains x, hscope.immutables.contains x]

theorem hasFunction (h : table.Renamed name table') (x : String) :
    table'.hasFunction (name x) = table.hasFunction x := by
  obtain ⟨scopes⟩ := table
  obtain ⟨scopes'⟩ := table'
  cases h with
  | nil => rfl
  | cons hscope _ => exact hscope.functions.contains x

theorem hasLocalVariable (h : table.Renamed name table') (x : String) :
    table'.hasLocalVariable (name x) = table.hasLocalVariable x := by
  obtain ⟨scopes⟩ := table
  obtain ⟨scopes'⟩ := table'
  cases h with
  | nil => rfl
  | cons hscope _ => exact hscope.localVariables.contains x

theorem hasLocalFunction (h : table.Renamed name table') (x : String) :
    table'.hasLocalFunction (name x) = table.hasLocalFunction x := by
  obtain ⟨scopes⟩ := table
  obtain ⟨scopes'⟩ := table'
  cases h with
  | nil => rfl
  | cons hscope _ => exact hscope.localFunctions.contains x

/-- A change and its renaming can be made on both tables or on none. -/
theorem after? (h : table.Renamed name table') (hname : name.Injective) (change : Change) :
    Option.Rel (Table.Renamed name) (table.after? change) (table'.after? (change.rename name)) := by
  obtain ⟨scopes⟩ := table
  obtain ⟨scopes'⟩ := table'
  cases h with
  | nil =>
    match change with
    | .enter => exact .some (.cons .empty .nil)
    | .exit | .variable _ _ | .function _ => exact .none
  | cons hscope hscopes =>
    match change with
    | .enter => exact .some (.cons hscope.child (.cons hscope hscopes))
    | .exit => exact .some hscopes
    | .variable x m => exact .some (.cons (hscope.declareVariable hname x m) hscopes)
    | .function x => exact .some (.cons (hscope.declareFunction hname x) hscopes)

end Table.Renamed

end Scope

end Scopewise
