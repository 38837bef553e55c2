import Mathlib.Data.List.Chain
import Scopewise.Proofs.Scope.Snapshot

namespace Scopewise.Scope

/-- A variable has one mutability, and whatever the scope declares itself can be seen in it. -/
structure Coherent (scope : Scope) : Prop where
  exclusive : scope.Exclusive
  localVariables : ∀ x ∈ scope.localVariables, x ∈ scope.mutables ∨ x ∈ scope.immutables
  localFunctions : ∀ x ∈ scope.localFunctions, x ∈ scope.functions

/-- The inner scope sees what the outer one sees. A variable that it does not declare itself is in
the same set in both. -/
structure Inherits (inner outer : Scope) : Prop where
  visible : ∀ x, x ∈ outer.mutables ∨ x ∈ outer.immutables →
    x ∈ inner.mutables ∨ x ∈ inner.immutables
  functions : ∀ x ∈ outer.functions, x ∈ inner.functions
  mutability : ∀ x, x ∉ inner.localVariables →
    (x ∈ inner.mutables ↔ x ∈ outer.mutables) ∧ (x ∈ inner.immutables ↔ x ∈ outer.immutables)

variable {scope inner outer : Scope} {name x : String} {m : Mutability}

theorem mem_mutables_declareVariable :
    x ∈ (scope.declareVariable name m).mutables ↔
      x = name ∧ m = .mutable ∨ x ≠ name ∧ x ∈ scope.mutables := by
  by_cases hx : x = name
  · cases m <;> simp [declareVariable, hx]
  · cases m <;> simp [declareVariable, hx]

theorem mem_immutables_declareVariable :
    x ∈ (scope.declareVariable name m).immutables ↔
      x = name ∧ m = .immutable ∨ x ≠ name ∧ x ∈ scope.immutables := by
  by_cases hx : x = name
  · cases m <;> simp [declareVariable, hx]
  · cases m <;> simp [declareVariable, hx]

theorem mem_localVariables_declareVariable :
    x ∈ (scope.declareVariable name m).localVariables ↔ x = name ∨ x ∈ scope.localVariables := by
  cases m <;> exact NameSet.mem_insert

/-- Declaring a variable makes it visible and hides none. -/
theorem visible_declareVariable :
    (x ∈ (scope.declareVariable name m).mutables ∨ x ∈ (scope.declareVariable name m).immutables) ↔
      x = name ∨ x ∈ scope.mutables ∨ x ∈ scope.immutables := by
  rw [mem_mutables_declareVariable, mem_immutables_declareVariable]
  by_cases hx : x = name
  · cases m <;> simp [hx]
  · simp [hx]

theorem functions_declareVariable : (scope.declareVariable name m).functions = scope.functions := by
  cases m <;> rfl

theorem localFunctions_declareVariable :
    (scope.declareVariable name m).localFunctions = scope.localFunctions := by
  cases m <;> rfl

namespace Coherent

theorem empty : Coherent {} where
  exclusive _ hx := absurd hx NameSet.not_mem_empty
  localVariables _ hx := absurd hx NameSet.not_mem_empty
  localFunctions _ hx := absurd hx NameSet.not_mem_empty

theorem child (h : scope.Coherent) : scope.child.Coherent where
  exclusive := h.exclusive
  localVariables _ hx := absurd hx NameSet.not_mem_empty
  localFunctions _ hx := absurd hx NameSet.not_mem_empty

theorem declareVariable (h : scope.Coherent) (name : String) (m : Mutability) :
    (scope.declareVariable name m).Coherent where
  exclusive := h.exclusive.declareVariable name m
  localVariables x hx := by
    apply visible_declareVariable.2
    exact (mem_localVariables_declareVariable.1 hx).imp_right (h.localVariables x)
  localFunctions x hx := by
    rw [localFunctions_declareVariable] at hx
    rw [functions_declareVariable]
    exact h.localFunctions x hx

theorem declareFunction (h : scope.Coherent) (name : String) :
    (scope.declareFunction name).Coherent where
  exclusive := h.exclusive
  localVariables := h.localVariables
  localFunctions x hx :=
    NameSet.mem_insert.2 ((NameSet.mem_insert.1 hx).imp_right (h.localFunctions x))

end Coherent

namespace Inherits

theorem child (scope : Scope) : Inherits scope.child scope where
  visible _ hx := hx
  functions _ hx := hx
  mutability _ _ := ⟨Iff.rfl, Iff.rfl⟩

/-- A variable that is not local after the declaration is not the declared one, and was not local
before it. -/
theorem declareVariable (h : inner.Inherits outer) (name : String) (m : Mutability) :
    (inner.declareVariable name m).Inherits outer where
  visible x hx := visible_declareVariable.2 (.inr (h.visible x hx))
  functions x hx := by
    rw [functions_declareVariable]
    exact h.functions x hx
  mutability x hx := by
    rw [mem_localVariables_declareVariable, not_or] at hx
    obtain ⟨hname, hlocal⟩ := hx
    rw [mem_mutables_declareVariable, mem_immutables_declareVariable]
    simpa [hname] using h.mutability x hlocal

theorem declareFunction (h : inner.Inherits outer) (name : String) :
    (inner.declareFunction name).Inherits outer where
  visible := h.visible
  functions x hx := NameSet.mem_insert.2 (.inr (h.functions x hx))
  mutability := h.mutability

end Inherits

namespace Table

/-- Every open scope is coherent and inherits from the one around it, which is next in the list. -/
structure Coherent (table : Table) : Prop where
  scopes : ∀ scope ∈ table.scopes, scope.Coherent
  neighbours : table.scopes.IsChain Inherits

/-- A change that fails leaves the table as it was. -/
theorem snd_step_change (table : Table) (change : Change) :
    (table.step (.change change)).2 = (table.after? change).getD table := by
  unfold step
  cases hafter : table.after? change with
  | none => simp only [hafter, Option.getD_none]
  | some next =>
    simp only [hafter, Option.getD_some]
    split
    · rfl
    · rfl

namespace Coherent

variable {table next : Table} {outers : List Scope}

/-- Another scope may stand in the place of the innermost one. -/
theorem replace {scope' : Scope} (h : Coherent ⟨scope :: outers⟩)
    (hcoherent : scope.Coherent → scope'.Coherent)
    (hinherits : ∀ outer, scope.Inherits outer → scope'.Inherits outer) :
    Coherent ⟨scope' :: outers⟩ := by
  obtain ⟨hscope, houters⟩ := List.forall_mem_cons.1 h.scopes
  obtain ⟨houter, hchain⟩ := List.isChain_cons.1 h.neighbours
  refine ⟨List.forall_mem_cons.2 ⟨hcoherent hscope, houters⟩, List.isChain_cons.2 ⟨?_, hchain⟩⟩
  intro outer hmem
  exact hinherits outer (houter outer hmem)

theorem after? (h : table.Coherent) {change : Change} (hnext : table.after? change = some next) :
    next.Coherent := by
  obtain ⟨scopes⟩ := table
  cases scopes with
  | nil =>
    -- an empty table can only be entered
    cases change <;> cases hnext
    exact ⟨List.forall_mem_singleton.2 .empty, .singleton _⟩
  | cons scope outers =>
    match change with
    | .enter =>
      cases hnext
      have hchild := (h.scopes scope List.mem_cons_self).child
      exact ⟨List.forall_mem_cons.2 ⟨hchild, h.scopes⟩, .cons_cons (.child scope) h.neighbours⟩
    | .exit =>
      cases hnext
      exact ⟨(List.forall_mem_cons.1 h.scopes).2, (List.isChain_cons.1 h.neighbours).2⟩
    | .variable name m =>
      cases hnext
      exact h.replace (·.declareVariable name m) fun _ houter => houter.declareVariable name m
    | .function name =>
      cases hnext
      exact h.replace (·.declareFunction name) fun _ houter => houter.declareFunction name

theorem step (h : table.Coherent) (op : Op) : (table.step op).2.Coherent := by
  cases op with
  | query query => exact h
  | change change =>
    rw [snd_step_change]
    cases hafter : table.after? change with
    | none => exact h
    | some next => exact h.after? hafter

theorem run (h : table.Coherent) (ops : List Op) : (table.run ops).2.Coherent := by
  induction ops generalizing table with
  | nil => exact h
  | cons op ops ih => exact ih (h.step op)

end Coherent

/-- Whatever is done to an empty table, each scope in it is coherent and inherits from the one
around it. -/
theorem run_coherent (ops : List Op) : (Table.run {} ops).2.Coherent := by
  have hempty : Coherent {} := ⟨fun _ hscope => absurd hscope List.not_mem_nil, .nil⟩
  exact hempty.run ops

end Table

end Scopewise.Scope
