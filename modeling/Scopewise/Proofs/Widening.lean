import Mathlib.Data.List.Lattice
import Scopewise.Proofs.Resolve

namespace Scopewise

namespace Scope.Chain

/-- The second chain sees what the first sees. The innermost frames agree but for the
variables `xs` and the functions `fs`. -/
structure Widens (xs fs : List String) (chain chain' : Chain) : Prop where
  ne_nil : chain ≠ [] ∧ chain' ≠ []
  hasVariable : ∀ x, chain.hasVariable x = true → chain'.hasVariable x = true
  hasFunction : ∀ f, chain.hasFunction f = true → chain'.hasFunction f = true
  hasLocalVariable : ∀ x ∉ xs, chain'.hasLocalVariable x = chain.hasLocalVariable x
  hasLocalFunction : ∀ f ∉ fs, chain'.hasLocalFunction f = chain.hasLocalFunction f

namespace Widens

variable {xs fs : List String} {chain chain' : Chain}

theorem refl (h : chain ≠ []) : Widens xs fs chain chain where
  ne_nil := ⟨h, h⟩
  hasVariable _ := id
  hasFunction _ := id
  hasLocalVariable _ _ := rfl
  hasLocalFunction _ _ := rfl

/-- A scope that has just been entered declares nothing. -/
theorem enter (h : Widens xs fs chain chain') :
    Widens [] [] chain.enter chain'.enter where
  ne_nil := ⟨List.cons_ne_nil _ _, List.cons_ne_nil _ _⟩
  hasVariable := h.hasVariable
  hasFunction := h.hasFunction
  hasLocalVariable _ _ := rfl
  hasLocalFunction _ _ := rfl

theorem declareVariable (h : Widens xs fs chain chain') (x : String)
    (m : Mutability) :
    Widens xs fs (chain.declareVariable x m) (chain'.declareVariable x m) := by
  obtain ⟨frame, outer, rfl⟩ := List.exists_cons_of_ne_nil h.ne_nil.1
  obtain ⟨frame', outer', rfl⟩ := List.exists_cons_of_ne_nil h.ne_nil.2
  refine ⟨⟨List.cons_ne_nil _ _, List.cons_ne_nil _ _⟩, fun y hy => ?_, h.hasFunction,
    fun y hy => ?_, h.hasLocalFunction⟩
  · rw [hasVariable_declareVariable, Bool.or_eq_true] at hy ⊢
    exact hy.imp_right (h.hasVariable y)
  · rw [hasLocalVariable_declareVariable, hasLocalVariable_declareVariable,
      h.hasLocalVariable y hy]

theorem declareFunction (h : Widens xs fs chain chain') (f : String) :
    Widens xs fs (chain.declareFunction f) (chain'.declareFunction f) := by
  obtain ⟨frame, outer, rfl⟩ := List.exists_cons_of_ne_nil h.ne_nil.1
  obtain ⟨frame', outer', rfl⟩ := List.exists_cons_of_ne_nil h.ne_nil.2
  refine ⟨⟨List.cons_ne_nil _ _, List.cons_ne_nil _ _⟩, h.hasVariable, fun g hg => ?_,
    h.hasLocalVariable, fun g hg => ?_⟩
  · rw [hasFunction_declareFunction, Bool.or_eq_true] at hg ⊢
    exact hg.imp_right (h.hasFunction g)
  · rw [hasLocalFunction_declareFunction, hasLocalFunction_declareFunction,
      h.hasLocalFunction g hg]

/-- A name that is set apart may be declared in the wider chain alone. -/
theorem declareVariable_right (h : Widens xs fs chain chain') {x : String}
    (hx : x ∈ xs) (m : Mutability) :
    Widens xs fs chain (chain'.declareVariable x m) := by
  obtain ⟨frame', outer', rfl⟩ := List.exists_cons_of_ne_nil h.ne_nil.2
  refine ⟨⟨h.ne_nil.1, List.cons_ne_nil _ _⟩, fun y hy => ?_, h.hasFunction, fun y hy => ?_,
    h.hasLocalFunction⟩
  · rw [hasVariable_declareVariable, h.hasVariable y hy, Bool.or_true]
  · have hne : y ≠ x := fun hyx => hy (hyx ▸ hx)
    rw [hasLocalVariable_declareVariable, h.hasLocalVariable y hy, decide_eq_false hne,
      Bool.false_or]

theorem declareFunction_right (h : Widens xs fs chain chain') {f : String}
    (hf : f ∈ fs) : Widens xs fs chain (chain'.declareFunction f) := by
  obtain ⟨frame', outer', rfl⟩ := List.exists_cons_of_ne_nil h.ne_nil.2
  refine ⟨⟨h.ne_nil.1, List.cons_ne_nil _ _⟩, h.hasVariable, fun g hg => ?_, h.hasLocalVariable,
    fun g hg => ?_⟩
  · rw [hasFunction_declareFunction, h.hasFunction g hg, Bool.or_true]
  · have hne : g ≠ f := fun hgf => hg (hgf ▸ hf)
    rw [hasLocalFunction_declareFunction, h.hasLocalFunction g hg, decide_eq_false hne,
      Bool.false_or]

end Widens

end Scope.Chain

open Scope (Chain)

variable {xs fs : List String} {chain chain' : Chain}

namespace Expr

mutual

theorem resolves_of_widens (h : Chain.Widens xs fs chain chain') : (e : Expr) →
    e.resolves chain = true → e.resolves chain' = true
  | .integer _, _ => rfl
  | .variable x, hx => h.hasVariable x hx
  | .call f args, hcall => by
    rw [resolves, Bool.and_eq_true] at hcall ⊢
    exact ⟨h.hasFunction f hcall.1, resolvesAll_of_widens h args hcall.2⟩
  | .unary _ operand, hoperand => resolves_of_widens h operand hoperand
  | .binary _ left right, hboth => by
    rw [resolves, Bool.and_eq_true] at hboth ⊢
    exact ⟨resolves_of_widens h left hboth.1, resolves_of_widens h right hboth.2⟩

theorem resolvesAll_of_widens (h : Chain.Widens xs fs chain chain') :
    (es : List Expr) → resolvesAll chain es = true → resolvesAll chain' es = true
  | [], _ => rfl
  | e :: es, hes => by
    rw [resolvesAll, Bool.and_eq_true] at hes ⊢
    exact ⟨resolves_of_widens h e hes.1, resolvesAll_of_widens h es hes.2⟩

end

end Expr

/-- No name is set apart in a scope that was entered for the parameters. -/
theorem Param.resolvesAll_of_widens (h : Chain.Widens [] [] chain chain') (ps : List Param)
    (hps : resolvesAll chain ps = true) :
    resolvesAll chain' ps = true ∧
      Chain.Widens [] [] (declareAll chain ps) (declareAll chain' ps) := by
  induction ps generalizing chain chain' with
  | nil => exact ⟨rfl, h⟩
  | cons p ps ih =>
    rw [resolvesAll, Bool.and_eq_true] at hps ⊢
    obtain ⟨hresolves, hdeclare⟩ := ih (h.declareVariable p.name .immutable) hps.2
    rw [h.hasLocalVariable p.name List.not_mem_nil]
    exact ⟨⟨hps.1, hresolves⟩, hdeclare⟩

namespace Stmt

def boundName? : Stmt → Option String
  | .binding _ name _ => some name
  | .function .. | .returning _ | .bare _ => none

def functionName? : Stmt → Option String
  | .function name _ _ _ => some name
  | .binding .. | .returning _ | .bare _ => none

/-- The variables that a program declares outside of its functions. -/
def boundNames (program : List Stmt) : List String :=
  program.filterMap boundName?

/-- The functions that a program declares outside of its functions. -/
def functionNames (program : List Stmt) : List String :=
  program.filterMap functionName?

/-- The statement declares none of these names. -/
def Avoids (xs fs : List String) (s : Stmt) : Prop :=
  (∀ x ∈ s.boundName?, x ∉ xs) ∧ ∀ f ∈ s.functionName?, f ∉ fs

theorem avoids_nil (s : Stmt) : s.Avoids [] [] :=
  ⟨fun _ _ => List.not_mem_nil, fun _ _ => List.not_mem_nil⟩

theorem widens_declare (h : Chain.Widens xs fs chain chain') (s : Stmt) :
    Chain.Widens xs fs (s.declare chain) (s.declare chain') := by
  cases s with
  | function name => exact h.declareFunction name
  | binding m name => exact h.declareVariable name m
  | returning | bare => exact h

mutual

theorem resolves_of_widens {xs fs : List String} {chain chain' : Chain}
    (h : Chain.Widens xs fs chain chain') : (s : Stmt) →
    s.Avoids xs fs → s.resolves chain = true → s.resolves chain' = true
  | .function name params _ body, havoids, hs => by
    simp only [resolves, Bool.and_eq_true] at hs ⊢
    obtain ⟨⟨hname, hparams⟩, hbody⟩ := hs
    obtain ⟨hparams', hinner⟩ :=
      Param.resolvesAll_of_widens (h.declareFunction name).enter params hparams
    rw [h.hasLocalFunction name (havoids.2 name rfl)]
    exact ⟨⟨hname, hparams'⟩, resolvesAll_of_widens hinner body (fun s _ => s.avoids_nil) hbody⟩
  | .binding _ name value, havoids, hs => by
    rw [resolves, Bool.and_eq_true] at hs ⊢
    rw [h.hasLocalVariable name (havoids.1 name rfl)]
    exact ⟨hs.1, value.resolves_of_widens h hs.2⟩
  | .returning value, _, hs => value.resolves_of_widens h hs
  | .bare value, _, hs => value.resolves_of_widens h hs

theorem resolvesAll_of_widens {xs fs : List String} {chain chain' : Chain}
    (h : Chain.Widens xs fs chain chain') : (ss : List Stmt) →
    (∀ s ∈ ss, s.Avoids xs fs) →
    resolvesAll chain ss = true → resolvesAll chain' ss = true
  | [], _, _ => rfl
  | s :: ss, havoids, hss => by
    rw [resolvesAll, Bool.and_eq_true] at hss ⊢
    obtain ⟨hs, hrest⟩ := List.forall_mem_cons.1 havoids
    exact ⟨resolves_of_widens h s hs hss.1,
      resolvesAll_of_widens (widens_declare h s) ss hrest hss.2⟩

end

/-- The chain behind some statements. -/
def declareAll (chain : Chain) (ss : List Stmt) : Chain :=
  ss.foldl declare chain

theorem resolvesAll_append (chain : Chain) (ss ts : List Stmt) :
    resolvesAll chain (ss ++ ts) =
      (resolvesAll chain ss && resolvesAll (declareAll chain ss) ts) := by
  induction ss generalizing chain with
  | nil => rfl
  | cons s ss ih => rw [List.cons_append, resolvesAll, resolvesAll, ih, Bool.and_assoc]; rfl

/-- What a program declares is all that sets the chain behind it apart. -/
theorem widens_declareAll (h : Chain.Widens xs fs chain chain') (ss : List Stmt)
    (hxs : boundNames ss ⊆ xs) (hfs : functionNames ss ⊆ fs) :
    Chain.Widens xs fs chain (declareAll chain' ss) := by
  induction ss generalizing chain' with
  | nil => exact h
  | cons s ss ih =>
    cases s with
    | function f =>
      obtain ⟨hf, hfs⟩ := List.cons_subset.1 hfs
      exact ih (h.declareFunction_right hf) hxs hfs
    | binding m x =>
      obtain ⟨hx, hxs⟩ := List.cons_subset.1 hxs
      exact ih (h.declareVariable_right hx m) hxs hfs
    | returning | bare => exact ih h hxs hfs

theorem avoids_of_disjoint {program program' : List Stmt}
    (hbound : (boundNames program).Disjoint (boundNames program'))
    (hfunctions : (functionNames program).Disjoint (functionNames program')) :
    ∀ s ∈ program', s.Avoids (boundNames program) (functionNames program) := by
  intro s hs
  constructor
  · intro x hx hmem
    exact hbound hmem (List.mem_filterMap.2 ⟨s, hs, hx⟩)
  · intro f hf hmem
    exact hfunctions hmem (List.mem_filterMap.2 ⟨s, hs, hf⟩)

/-- A program behind another one resolves if it does so on its own, unless it declares a name
again. -/
theorem programResolves_append {program program' : List Stmt}
    (hbound : (boundNames program).Disjoint (boundNames program'))
    (hfunctions : (functionNames program).Disjoint (functionNames program'))
    (h : programResolves program = true) (h' : programResolves program' = true) :
    programResolves (program ++ program') = true := by
  have hwidens : Chain.Widens (boundNames program) (functionNames program)
      [{ functions := ["echo"] }] (declareAll [{ functions := ["echo"] }] program) :=
    widens_declareAll (.refl (List.cons_ne_nil _ _)) program (List.Subset.refl _)
      (List.Subset.refl _)
  unfold programResolves
  rw [resolvesAll_append, Bool.and_eq_true]
  exact ⟨h, resolvesAll_of_widens hwidens program' (avoids_of_disjoint hbound hfunctions) h'⟩

end Stmt

end Scopewise
