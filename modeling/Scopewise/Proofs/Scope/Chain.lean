import Scopewise.Scope.Table

namespace Scopewise

theorem NameSet.contains_insert (set : NameSet) (x y : String) :
    (set.insert x).contains y = (decide (y = x) || set.contains y) := by
  apply Bool.eq_iff_iff.2
  simp

namespace Scope

/-- What one scope declares itself, newest first. -/
structure Frame where
  bindings : List (String × Mutability) := []
  functions : List String := []
deriving DecidableEq, Repr, Inhabited

/-- The open frames, innermost first. -/
abbrev Chain := List Frame

private theorem lookup_cons_eq (x y : String) (m : Mutability)
    (bindings : List (String × Mutability)) :
    ((x, m) :: bindings).lookup y = if y = x then some m else bindings.lookup y := by
  rw [List.lookup_cons]
  by_cases h : y = x
  · simp [h]
  · simp [h, beq_false_of_ne h]

namespace Chain

def mutability? (chain : Chain) (name : String) : Option Mutability :=
  chain.findSome? (·.bindings.lookup name)

def hasVariable (chain : Chain) (name : String) : Bool :=
  (chain.mutability? name).isSome

def hasFunction (chain : Chain) (name : String) : Bool :=
  chain.any (·.functions.contains name)

def hasLocalVariable (chain : Chain) (name : String) : Bool :=
  chain.head?.any fun frame => (frame.bindings.lookup name).isSome

def hasLocalFunction (chain : Chain) (name : String) : Bool :=
  chain.head?.any (·.functions.contains name)

def enter (chain : Chain) : Chain :=
  {} :: chain

/-- Declares a variable in the innermost frame; without a frame there is nowhere to declare it. -/
def declareVariable (chain : Chain) (name : String) (mutability : Mutability) : Chain :=
  match chain with
  | [] => []
  | frame :: outer => { frame with bindings := (name, mutability) :: frame.bindings } :: outer

def declareFunction (chain : Chain) (name : String) : Chain :=
  match chain with
  | [] => []
  | frame :: outer => { frame with functions := name :: frame.functions } :: outer

theorem mutability?_declareVariable (frame : Frame) (outer : Chain) (x y : String)
    (m : Mutability) :
    mutability? (declareVariable (frame :: outer) x m) y =
      if y = x then some m else mutability? (frame :: outer) y := by
  unfold mutability? declareVariable
  rw [List.findSome?_cons, List.findSome?_cons, lookup_cons_eq]
  by_cases h : y = x
  · simp [h]
  · simp [h]

theorem hasFunction_declareFunction (frame : Frame) (outer : Chain) (x y : String) :
    hasFunction (declareFunction (frame :: outer) x) y =
      (decide (y = x) || hasFunction (frame :: outer) y) := by
  simp [hasFunction, declareFunction, Bool.or_assoc]

theorem hasVariable_declareVariable (frame : Frame) (outer : Chain) (x y : String)
    (m : Mutability) :
    hasVariable (declareVariable (frame :: outer) x m) y =
      (decide (y = x) || hasVariable (frame :: outer) y) := by
  unfold hasVariable
  rw [mutability?_declareVariable]
  by_cases h : y = x
  · simp [h]
  · simp [h]

theorem hasLocalVariable_declareVariable (frame : Frame) (outer : Chain) (x y : String)
    (m : Mutability) :
    hasLocalVariable (declareVariable (frame :: outer) x m) y =
      (decide (y = x) || hasLocalVariable (frame :: outer) y) := by
  change Option.isSome (List.lookup y ((x, m) :: frame.bindings)) = _
  rw [lookup_cons_eq]
  by_cases h : y = x
  · simp [h]
  · simp [h, hasLocalVariable]

theorem hasLocalFunction_declareFunction (frame : Frame) (outer : Chain) (x y : String) :
    hasLocalFunction (declareFunction (frame :: outer) x) y =
      (decide (y = x) || hasLocalFunction (frame :: outer) y) := by
  simp [hasLocalFunction, declareFunction]

end Chain

theorem hasVariable_eq_isSome (scope : Scope) (x : String) :
    scope.hasVariable x = (scope.mutability? x).isSome := by
  unfold hasVariable mutability?
  by_cases hm : scope.mutables.contains x
  · simp [hm]
  · by_cases hi : scope.immutables.contains x
    · simp [hm, hi]
    · simp [hm, hi]

theorem mutability?_declareVariable (scope : Scope) (x y : String) (m : Mutability) :
    (scope.declareVariable x m).mutability? y = if y = x then some m else scope.mutability? y := by
  cases m with
  | mutable => by_cases h : y = x <;> simp [declareVariable, mutability?, h]
  | immutable => by_cases h : y = x <;> simp [declareVariable, mutability?, h]

/-- The scope sees what the chain sees, and owns what its innermost frame owns. -/
structure Mirrors (scope : Scope) (chain : Chain) : Prop where
  mutability : ∀ x, scope.mutability? x = chain.mutability? x
  function : ∀ x, scope.hasFunction x = chain.hasFunction x
  localVariable : ∀ x, scope.hasLocalVariable x = chain.hasLocalVariable x
  localFunction : ∀ x, scope.hasLocalFunction x = chain.hasLocalFunction x

namespace Mirrors

variable {scope : Scope} {frame : Frame} {outer : Chain}

theorem hasVariable (h : Mirrors scope outer) (x : String) :
    scope.hasVariable x = outer.hasVariable x := by
  rw [hasVariable_eq_isSome, h.mutability x]
  rfl

theorem empty : Mirrors {} [{}] where
  mutability _ := rfl
  function _ := rfl
  localVariable _ := rfl
  localFunction _ := rfl

/-- A copy that has declared nothing yet mirrors the chain with an empty frame in front. -/
theorem child (h : Mirrors scope outer) : Mirrors scope.child outer.enter where
  mutability x := h.mutability x
  function x := h.function x
  localVariable _ := rfl
  localFunction _ := rfl

theorem declareVariable (h : Mirrors scope (frame :: outer)) (x : String) (m : Mutability) :
    Mirrors (scope.declareVariable x m) (Chain.declareVariable (frame :: outer) x m) where
  mutability y := by
    rw [mutability?_declareVariable, Chain.mutability?_declareVariable, h.mutability y]
  function y := by
    have hf := h.function y
    cases m <;> exact hf
  localVariable y := by
    have hl := h.localVariable y
    have hs : (scope.declareVariable x m).hasLocalVariable y =
        (decide (y = x) || scope.hasLocalVariable y) := by
      cases m <;> exact NameSet.contains_insert _ _ _
    rw [hs, hl, Chain.hasLocalVariable_declareVariable]
  localFunction y := by
    have hl := h.localFunction y
    cases m <;> exact hl

theorem declareFunction (h : Mirrors scope (frame :: outer)) (x : String) :
    Mirrors (scope.declareFunction x) (Chain.declareFunction (frame :: outer) x) where
  mutability y := h.mutability y
  function y := by
    rw [Chain.hasFunction_declareFunction, ← h.function y]
    exact NameSet.contains_insert _ _ _
  localVariable y := h.localVariable y
  localFunction y := by
    have hl := h.localFunction y
    have hs : (scope.declareFunction x).hasLocalFunction y =
        (decide (y = x) || scope.hasLocalFunction y) := NameSet.contains_insert _ _ _
    rw [hs, hl, Chain.hasLocalFunction_declareFunction]

end Mirrors

/-- Each scope mirrors the chain from its own frame outwards. -/
inductive Follows : List Scope → Chain → Prop
  | nil : Follows [] []
  | cons {scope : Scope} {scopes : List Scope} {frame : Frame} {outer : Chain}
      (hscope : Mirrors scope (frame :: outer)) (hscopes : Follows scopes outer) :
      Follows (scope :: scopes) (frame :: outer)

namespace Follows

variable {table : Table} {frame : Frame} {outer chain : Chain}

theorem exists_current (h : Follows table.scopes (frame :: outer)) :
    ∃ scope scopes, table = ⟨scope :: scopes⟩ ∧ Mirrors scope (frame :: outer) ∧
      Follows scopes outer := by
  obtain ⟨scopes⟩ := table
  cases h with
  | cons hscope hscopes => exact ⟨_, _, rfl, hscope, hscopes⟩

theorem hasVariable (h : Follows table.scopes chain) (x : String) :
    table.hasVariable x = chain.hasVariable x := by
  obtain ⟨scopes⟩ := table
  cases h with
  | nil => rfl
  | cons hscope _ => exact hscope.hasVariable x

theorem hasFunction (h : Follows table.scopes chain) (x : String) :
    table.hasFunction x = chain.hasFunction x := by
  obtain ⟨scopes⟩ := table
  cases h with
  | nil => rfl
  | cons hscope _ => exact hscope.function x

theorem hasLocalVariable (h : Follows table.scopes chain) (x : String) :
    table.hasLocalVariable x = chain.hasLocalVariable x := by
  obtain ⟨scopes⟩ := table
  cases h with
  | nil => rfl
  | cons hscope _ => exact hscope.localVariable x

theorem hasLocalFunction (h : Follows table.scopes chain) (x : String) :
    table.hasLocalFunction x = chain.hasLocalFunction x := by
  obtain ⟨scopes⟩ := table
  cases h with
  | nil => rfl
  | cons hscope _ => exact hscope.localFunction x

theorem mutability? (h : Follows table.scopes chain) (x : String) :
    table.mutability? x = chain.head?.map fun _ => chain.mutability? x := by
  obtain ⟨scopes⟩ := table
  cases h with
  | nil => rfl
  | cons hscope _ => exact congrArg some (hscope.mutability x)

theorem depth (h : Follows table.scopes chain) : table.depth = chain.length := by
  have hlength {scopes : List Scope} {chain : Chain} (h : Follows scopes chain) :
      scopes.length = chain.length := by
    induction h with
    | nil => rfl
    | cons _ _ ih => rw [List.length_cons, List.length_cons, ih]
  exact hlength h

theorem enter (h : Follows table.scopes chain) :
    ∃ next, table.after? .enter = some next ∧ Follows next.scopes chain.enter := by
  obtain ⟨scopes⟩ := table
  cases h with
  | nil => exact ⟨_, rfl, .cons .empty .nil⟩
  | cons hscope hscopes => exact ⟨_, rfl, .cons hscope.child (.cons hscope hscopes)⟩

theorem exit (h : Follows table.scopes (frame :: outer)) :
    ∃ next, table.after? .exit = some next ∧ Follows next.scopes outer := by
  obtain ⟨scope, scopes, rfl, -, hs⟩ := h.exists_current
  exact ⟨_, rfl, hs⟩

theorem declareVariable (h : Follows table.scopes (frame :: outer)) (x : String) (m : Mutability) :
    ∃ next, table.after? (.variable x m) = some next ∧
      Follows next.scopes (Chain.declareVariable (frame :: outer) x m) := by
  obtain ⟨scope, scopes, rfl, hm, hs⟩ := h.exists_current
  exact ⟨_, rfl, .cons (hm.declareVariable x m) hs⟩

theorem declareFunction (h : Follows table.scopes (frame :: outer)) (x : String) :
    ∃ next, table.after? (.function x) = some next ∧
      Follows next.scopes (Chain.declareFunction (frame :: outer) x) := by
  obtain ⟨scope, scopes, rfl, hm, hs⟩ := h.exists_current
  exact ⟨_, rfl, .cons (hm.declareFunction x) hs⟩

end Follows

end Scope

end Scopewise
