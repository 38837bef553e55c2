import Scopewise.Proofs.Scope.Chain

namespace Scopewise

theorem NameSet.mem_ofList {names : List String} {x : String} :
    x ∈ NameSet.ofList names ↔ x ∈ names := by
  have hfold (set : NameSet) : x ∈ names.foldl insert set ↔ x ∈ set ∨ x ∈ names := by
    induction names generalizing set with
    | nil => simp
    | cons name names ih =>
      rw [List.foldl_cons, ih, mem_insert, List.mem_cons, or_assoc]
      exact or_left_comm
  rw [ofList, hfold]
  simp

namespace Scope

attribute [ext] Scope

/-- No variable is both mutable and immutable. -/
def Exclusive (scope : Scope) : Prop :=
  ∀ x ∈ scope.mutables, x ∉ scope.immutables

theorem mem_mutables_iff {scope : Scope} {x : String} :
    x ∈ scope.mutables ↔ scope.mutability? x = some .mutable := by
  unfold mutability?
  by_cases hx : x ∈ scope.mutables
  · simp [hx]
  · by_cases hi : x ∈ scope.immutables <;> simp [hx, hi]

namespace Exclusive

variable {scope : Scope}

theorem mem_immutables_iff (h : scope.Exclusive) {x : String} :
    x ∈ scope.immutables ↔ scope.mutability? x = some .immutable := by
  unfold mutability?
  by_cases hx : x ∈ scope.mutables
  · simp [hx, h x hx]
  · by_cases hi : x ∈ scope.immutables <;> simp [hx, hi]

theorem declareVariable (h : scope.Exclusive) (name : String) (m : Mutability) :
    (scope.declareVariable name m).Exclusive := by
  intro x
  have hx := h x
  cases m with
  | mutable =>
    simp only [Scope.declareVariable, NameSet.mem_insert, NameSet.mem_erase]
    rintro (rfl | hmem) ⟨hne, hi⟩
    · exact hne rfl
    · exact hx hmem hi
  | immutable =>
    simp only [Scope.declareVariable, NameSet.mem_insert, NameSet.mem_erase]
    rintro ⟨hne, hmem⟩ (rfl | hi)
    · exact hne rfl
    · exact hx hmem hi

end Exclusive

namespace Chain

/-- The variables that some frame declares. -/
def boundNames (chain : Chain) : List String :=
  chain.flatMap fun frame => frame.bindings.map Prod.fst

def functionNames (chain : Chain) : List String :=
  chain.flatMap (·.functions)

/-- What is seen from the innermost frame, and what that frame declares itself. -/
def snapshot (chain : Chain) : Scope where
  mutables := .ofList (chain.boundNames.filter (chain.mutability? · = some .mutable))
  immutables := .ofList (chain.boundNames.filter (chain.mutability? · = some .immutable))
  functions := .ofList chain.functionNames
  localVariables := .ofList (boundNames (chain.take 1))
  localFunctions := .ofList (functionNames (chain.take 1))

def answer (chain : Chain) : Query → Table.Answer
  | .hasVariable name => .holds (chain.hasVariable name)
  | .hasFunction name => .holds (chain.hasFunction name)
  | .hasLocalVariable name => .holds (chain.hasLocalVariable name)
  | .hasLocalFunction name => .holds (chain.hasLocalFunction name)
  | .mutability name => .mutability (chain.head?.map fun _ => chain.mutability? name)
  | .depth => .depth chain.length

/-- One operation. Leaving the innermost frame answers with what was seen from it. -/
def step (chain : Chain) : Table.Op → Table.Answer × Chain
  | .query query => (chain.answer query, chain)
  | .change .enter => (.done, chain.enter)
  | .change .exit =>
    match chain with
    | [] => (.underflow, [])
    | frame :: outer => (.left (snapshot (frame :: outer)), outer)
  | .change (.variable name mutability) =>
    match chain with
    | [] => (.underflow, [])
    | frame :: outer => (.done, declareVariable (frame :: outer) name mutability)
  | .change (.function name) =>
    match chain with
    | [] => (.underflow, [])
    | frame :: outer => (.done, declareFunction (frame :: outer) name)

def run (chain : Chain) : List Table.Op → List Table.Answer × Chain
  | [] => ([], chain)
  | op :: ops =>
    let (answer, next) := chain.step op
    let (answers, last) := run next ops
    (answer :: answers, last)

theorem mem_boundNames_iff {chain : Chain} {x : String} :
    x ∈ chain.boundNames ↔ chain.hasVariable x = true := by
  simp only [boundNames, hasVariable, mutability?, List.mem_flatMap, List.mem_map,
    List.findSome?_isSome_iff, List.lookup_isSome_iff, beq_iff_eq]
  constructor
  · rintro ⟨frame, hframe, entry, hentry, rfl⟩
    exact ⟨frame, hframe, entry, hentry, rfl⟩
  · rintro ⟨frame, hframe, entry, hentry, rfl⟩
    exact ⟨frame, hframe, entry, hentry, rfl⟩

theorem mem_functionNames_iff {chain : Chain} {x : String} :
    x ∈ chain.functionNames ↔ chain.hasFunction x = true := by
  simp [functionNames, hasFunction]

/-- What is declared locally is what is seen when only the innermost frame is there. -/
theorem hasLocalVariable_eq (chain : Chain) (x : String) :
    chain.hasLocalVariable x = hasVariable (chain.take 1) x := by
  cases chain with
  | nil => rfl
  | cons frame outer => simp [hasLocalVariable, hasVariable, mutability?]

theorem hasLocalFunction_eq (chain : Chain) (x : String) :
    chain.hasLocalFunction x = hasFunction (chain.take 1) x := by
  cases chain with
  | nil => rfl
  | cons frame outer => simp [hasLocalFunction, hasFunction]

end Chain

variable {table : Table} {chain : Chain}

/-- A scope that mirrors a chain is determined by it. -/
theorem Mirrors.eq_snapshot {scope : Scope} (h : Mirrors scope chain) (hscope : scope.Exclusive) :
    scope = chain.snapshot := by
  have hseen {x : String} {m : Mutability} (hx : scope.mutability? x = some m) :
      x ∈ chain.boundNames := by
    rw [Chain.mem_boundNames_iff, Chain.hasVariable, ← h.mutability x, hx]
    rfl
  ext x
  · rw [mem_mutables_iff, Chain.snapshot, NameSet.mem_ofList, List.mem_filter, decide_eq_true_iff,
      ← h.mutability x]
    exact ⟨fun hx => ⟨hseen hx, hx⟩, And.right⟩
  · rw [hscope.mem_immutables_iff, Chain.snapshot, NameSet.mem_ofList, List.mem_filter,
      decide_eq_true_iff, ← h.mutability x]
    exact ⟨fun hx => ⟨hseen hx, hx⟩, And.right⟩
  · rw [Chain.snapshot, NameSet.mem_ofList, Chain.mem_functionNames_iff, ← h.function x]
    exact NameSet.contains_iff.symm
  · rw [Chain.snapshot, NameSet.mem_ofList, Chain.mem_boundNames_iff, ← Chain.hasLocalVariable_eq,
      ← h.localVariable x]
    exact NameSet.contains_iff.symm
  · rw [Chain.snapshot, NameSet.mem_ofList, Chain.mem_functionNames_iff,
      ← Chain.hasLocalFunction_eq, ← h.localFunction x]
    exact NameSet.contains_iff.symm

/-- The table holds, for each frame, a copy of what is seen from it. -/
structure Refines (table : Table) (chain : Chain) : Prop where
  follows : Follows table.scopes chain
  exclusive : ∀ scope ∈ table.scopes, scope.Exclusive

/-- Only the innermost scope is new after a change, and it comes from the one that was innermost. -/
theorem exclusive_after? {change : Change} {next : Table}
    (h : ∀ scope ∈ table.scopes, scope.Exclusive) (hnext : table.after? change = some next) :
    ∀ scope ∈ next.scopes, scope.Exclusive := by
  obtain ⟨scopes⟩ := table
  cases scopes with
  | nil =>
    cases change <;> cases hnext
    intro scope hscope x hx
    obtain rfl := List.mem_singleton.1 hscope
    exact absurd hx NameSet.not_mem_empty
  | cons scope outer =>
    obtain ⟨hscope, houter⟩ := List.forall_mem_cons.1 h
    match change with
    | .enter => cases hnext; exact List.forall_mem_cons.2 ⟨hscope, h⟩
    | .exit => cases hnext; exact houter
    | .variable name m =>
      cases hnext
      exact List.forall_mem_cons.2 ⟨hscope.declareVariable name m, houter⟩
    | .function name => cases hnext; exact List.forall_mem_cons.2 ⟨hscope, houter⟩

namespace Refines

theorem answer (h : Refines table chain) (query : Query) :
    table.answer query = chain.answer query := by
  cases query with
  | hasVariable name => exact congrArg _ (h.follows.hasVariable name)
  | hasFunction name => exact congrArg _ (h.follows.hasFunction name)
  | hasLocalVariable name => exact congrArg _ (h.follows.hasLocalVariable name)
  | hasLocalFunction name => exact congrArg _ (h.follows.hasLocalFunction name)
  | mutability name => exact congrArg _ (h.follows.mutability? name)
  | depth => exact congrArg _ h.follows.depth

theorem after? (h : Refines table chain) (change : Change) {next : Table} {chain' : Chain}
    (hnext : table.after? change = some next) (hfollows : Follows next.scopes chain') :
    Refines next chain' :=
  ⟨hfollows, exclusive_after? h.exclusive hnext⟩

/-- One operation has one answer, and the table goes on holding copies. -/
theorem step (h : Refines table chain) (op : Table.Op) :
    (table.step op).1 = (chain.step op).1 ∧ Refines (table.step op).2 (chain.step op).2 := by
  cases op with
  | query query => exact ⟨h.answer query, h⟩
  | change change =>
    cases chain with
    | nil =>
      obtain ⟨scopes⟩ := table
      cases h.follows
      match change with
      | .enter => exact ⟨rfl, h.after? .enter rfl (.cons .empty .nil)⟩
      | .exit | .variable _ _ | .function _ => exact ⟨rfl, h⟩
    | cons frame outer =>
      obtain ⟨scope, scopes, rfl, hscope, hscopes⟩ := h.follows.exists_current
      match change with
      | .enter =>
        exact ⟨rfl, h.after? .enter rfl (.cons hscope.child h.follows)⟩
      | .exit =>
        have hleft := hscope.eq_snapshot (h.exclusive scope List.mem_cons_self)
        exact ⟨congrArg Table.Answer.left hleft, h.after? .exit rfl hscopes⟩
      | .variable name m =>
        have hnew := Follows.cons (hscope.declareVariable name m) hscopes
        exact ⟨rfl, h.after? (.variable name m) rfl hnew⟩
      | .function name =>
        have hnew := Follows.cons (hscope.declareFunction name) hscopes
        exact ⟨rfl, h.after? (.function name) rfl hnew⟩

theorem run (h : Refines table chain) (ops : List Table.Op) :
    (table.run ops).1 = (chain.run ops).1 ∧ Refines (table.run ops).2 (chain.run ops).2 := by
  induction ops generalizing table chain with
  | nil => exact ⟨rfl, h⟩
  | cons op ops ih =>
    obtain ⟨hanswer, hnext⟩ := h.step op
    obtain ⟨hanswers, hlast⟩ := ih hnext
    exact ⟨congr (congrArg List.cons hanswer) hanswers, hlast⟩

end Refines

/-- Whatever is done to an empty table, its answers are those of a chain of frames. -/
theorem Table.run_answers_eq (ops : List Table.Op) :
    (Table.run {} ops).1 = (Chain.run [] ops).1 := by
  have hempty : Refines {} [] := ⟨.nil, fun _ hscope => absurd hscope List.not_mem_nil⟩
  exact (hempty.run ops).1

end Scope

end Scopewise
