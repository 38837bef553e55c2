import Scopewise.Diagnostic
import Scopewise.Proofs.Grammar
import Scopewise.Proofs.Resolve
import Scopewise.Text.Decimal

namespace Scopewise

/-- The text of the token that a fault is about, for the faults that are about one. -/
def Fault.text? : Fault → Option String
  | .unexpectedToken text | .expectedToken _ text | .integerOutOfRange text
  | .variableRedeclared text | .variableUndeclared text | .functionRedeclared text
  | .functionUndeclared text | .unknownReturnType text => some text
  | .unexpectedCharacter _ | .unexpectedEnd _ | .unmatchedBrace | .nestingTooDeep _
  | .scopeUnderflow => none

end Scopewise

namespace Scopewise.Grammar

open Scope (Chain)

structure Violation (α : Type) where
  spot : α
  fault : Fault
deriving Repr

variable {α : Type} (token : α → Token)

/-- The violation as it is reported: at its own token. -/
def Violation.diagnostic (v : Violation α) : Diagnostic :=
  ⟨v.fault, (token v.spot).position⟩

/-- No violation if `valid`, otherwise one with the text of the token at `spot`. -/
def ensure (valid : Bool) (spot : α) (fault : String → Fault) : List (Violation α) :=
  if valid then [] else [⟨spot, fault (token spot).value⟩]

namespace Phrase

mutual

def violations (chain : Chain) : Phrase α → List (Violation α)
  | .integer t => ensure token (Text.readInt64? (token t).value).isSome t .integerOutOfRange
  | .variable t => ensure token (chain.hasVariable (token t).value) t .variableUndeclared
  | .call t args =>
    ensure token (chain.hasFunction (token t).value) t .functionUndeclared ++
      violationsAll chain args
  | .unary _ operand => violations chain operand
  | .binary _ left right => violations chain left ++ violations chain right

def violationsAll (chain : Chain) : List (Phrase α) → List (Violation α)
  | [] => []
  | e :: es => violations chain e ++ violationsAll chain es

end

mutual

/-- The tree of the expression, if its literals are in range. -/
def tree? : Phrase α → Option Expr
  | .integer t => (Text.readInt64? (token t).value).map .integer
  | .variable t => some (.variable (token t).value)
  | .call t args => (trees? args).map (.call (token t).value)
  | .unary op operand => (tree? operand).map (.unary op)
  | .binary op left right => do return .binary op (← tree? left) (← tree? right)

def trees? : List (Phrase α) → Option (List Expr)
  | [] => some []
  | e :: es => do return (← tree? e) :: (← trees? es)

end

end Phrase

namespace Clause

def paramViolations (chain : Chain) : List (α × α) → List (Violation α)
  | [] => []
  | (name, _) :: ps =>
    ensure token (!chain.hasLocalVariable (token name).value) name .variableRedeclared ++
      paramViolations (chain.declareVariable (token name).value .immutable) ps

def param (p : α × α) : Param :=
  ⟨(token p.1).value, (token p.2).value⟩

/-- The chain behind the statement, whatever is wrong with it. -/
def declare (chain : Chain) : Clause α → Chain
  | .function name _ _ _ => chain.declareFunction (token name).value
  | .binding mutability name _ => chain.declareVariable (token name).value mutability
  | .returning _ | .bare _ => chain

mutual

def violations (chain : Chain) : Clause α → List (Violation α)
  | .function name params type body =>
    let inner := (chain.declareFunction (token name).value).enter
    ensure token (!chain.hasLocalFunction (token name).value) name .functionRedeclared ++
      paramViolations token inner params ++
      ensure token (ReturnType.ofName? (token type).value).isSome type .unknownReturnType ++
      violationsAll (Param.declareAll inner (params.map (param token))) body
  | .binding _ name value =>
    ensure token (!chain.hasLocalVariable (token name).value) name .variableRedeclared ++
      value.violations token chain
  | .returning value | .bare value => value.violations token chain

def violationsAll (chain : Chain) : List (Clause α) → List (Violation α)
  | [] => []
  | c :: cs => violations chain c ++ violationsAll (c.declare token chain) cs

end

mutual

/-- The tree of the statement, if its return types are known and its literals in range. -/
def tree? : Clause α → Option Stmt
  | .function name params type body => do
    return .function (token name).value (params.map (param token))
      (← ReturnType.ofName? (token type).value) (← trees? body)
  | .binding mutability name value =>
    (value.tree? token).map (.binding mutability (token name).value)
  | .returning value => (value.tree? token).map .returning
  | .bare value => (value.tree? token).map .bare

def trees? : List (Clause α) → Option (List Stmt)
  | [] => some []
  | c :: cs => do return (← tree? c) :: (← trees? cs)

end

end Clause

variable {token}

@[simp]
theorem ensure_eq_nil_iff {valid : Bool} {spot : α} {fault : String → Fault} :
    ensure token valid spot fault = [] ↔ valid = true := by
  cases valid <;> simp [ensure]

namespace Phrase

theorem tree?_binary_eq_some_iff {op : BinaryOp} {l r : Phrase α} {tree : Expr} :
    (Phrase.binary op l r).tree? token = some tree ↔
      ∃ lt, l.tree? token = some lt ∧ ∃ rt, r.tree? token = some rt ∧
        .binary op lt rt = tree := by
  simp only [tree?, Option.bind_eq_bind, Option.bind_eq_some_iff, Option.pure_def,
    Option.some.injEq]

theorem trees?_cons_eq_some_iff {e : Phrase α} {es : List (Phrase α)} {trees : List Expr} :
    trees? token (e :: es) = some trees ↔
      ∃ t, e.tree? token = some t ∧ ∃ ts, trees? token es = some ts ∧ t :: ts = trees := by
  simp only [trees?, Option.bind_eq_bind, Option.bind_eq_some_iff, Option.pure_def,
    Option.some.injEq]

mutual

theorem violations_eq_nil_iff (chain : Chain) : (e : Phrase α) →
    (e.violations token chain = [] ↔ ∃ tree, e.tree? token = some tree ∧ tree.resolves chain)
  | .integer t => by
    cases h : Text.readInt64? (token t).value <;> simp [violations, tree?, h, Expr.resolves]
  | .variable t => by simp [violations, tree?, Expr.resolves]
  | .call t args => by
    have ih := violationsAll_eq_nil_iff chain args
    simp only [violations, tree?, List.append_eq_nil_iff, ensure_eq_nil_iff, ih]
    constructor
    · rintro ⟨hname, es, hes, hresolves⟩
      exact ⟨.call (token t).value es, by simp [hes], by simp [Expr.resolves, hname, hresolves]⟩
    · rintro ⟨tree, htree, hresolves⟩
      obtain ⟨es, hes, rfl⟩ := Option.map_eq_some_iff.1 htree
      rw [Expr.resolves, Bool.and_eq_true] at hresolves
      exact ⟨hresolves.1, es, hes, hresolves.2⟩
  | .unary op e => by
    have ih := violations_eq_nil_iff chain e
    simp only [violations, tree?, ih]
    constructor
    · rintro ⟨tree, htree, hresolves⟩
      exact ⟨.unary op tree, by simp [htree], hresolves⟩
    · rintro ⟨tree, htree, hresolves⟩
      obtain ⟨operand, hoperand, rfl⟩ := Option.map_eq_some_iff.1 htree
      exact ⟨operand, hoperand, hresolves⟩
  | .binary op l r => by
    have ihl := violations_eq_nil_iff chain l
    have ihr := violations_eq_nil_iff chain r
    simp only [violations, List.append_eq_nil_iff, ihl, ihr]
    constructor
    · rintro ⟨⟨lt, hl, hlr⟩, ⟨rt, hr, hrr⟩⟩
      exact ⟨.binary op lt rt, tree?_binary_eq_some_iff.2 ⟨lt, hl, rt, hr, rfl⟩,
        by simp [Expr.resolves, hlr, hrr]⟩
    · rintro ⟨tree, htree, hresolves⟩
      obtain ⟨lt, hl, rt, hr, rfl⟩ := tree?_binary_eq_some_iff.1 htree
      rw [Expr.resolves, Bool.and_eq_true] at hresolves
      exact ⟨⟨lt, hl, hresolves.1⟩, ⟨rt, hr, hresolves.2⟩⟩

theorem violationsAll_eq_nil_iff (chain : Chain) : (es : List (Phrase α)) →
    (violationsAll token chain es = [] ↔
      ∃ trees, trees? token es = some trees ∧ Expr.resolvesAll chain trees)
  | [] => by simp [violationsAll, trees?, Expr.resolvesAll]
  | e :: es => by
    have ihe := violations_eq_nil_iff chain e
    have ihes := violationsAll_eq_nil_iff chain es
    simp only [violationsAll, List.append_eq_nil_iff, ihe, ihes]
    constructor
    · rintro ⟨⟨t, ht, htr⟩, ⟨ts, hts, htsr⟩⟩
      exact ⟨t :: ts, trees?_cons_eq_some_iff.2 ⟨t, ht, ts, hts, rfl⟩,
        by simp [Expr.resolvesAll, htr, htsr]⟩
    · rintro ⟨trees, htrees, hresolves⟩
      obtain ⟨t, ht, ts, hts, rfl⟩ := trees?_cons_eq_some_iff.1 htrees
      rw [Expr.resolvesAll, Bool.and_eq_true] at hresolves
      exact ⟨⟨t, ht, hresolves.1⟩, ⟨ts, hts, hresolves.2⟩⟩

end

end Phrase

namespace Clause

theorem tree?_function_eq_some_iff {name type : α} {params : List (α × α)}
    {body : List (Clause α)} {tree : Stmt} :
    (Clause.function name params type body).tree? token = some tree ↔
      ∃ returnType, ReturnType.ofName? (token type).value = some returnType ∧
        ∃ trees, trees? token body = some trees ∧
          .function (token name).value (params.map (param token)) returnType trees = tree := by
  simp only [tree?, Option.bind_eq_bind, Option.bind_eq_some_iff, Option.pure_def,
    Option.some.injEq]

theorem trees?_cons_eq_some_iff {c : Clause α} {cs : List (Clause α)} {trees : List Stmt} :
    trees? token (c :: cs) = some trees ↔
      ∃ t, c.tree? token = some t ∧ ∃ ts, trees? token cs = some ts ∧ t :: ts = trees := by
  simp only [trees?, Option.bind_eq_bind, Option.bind_eq_some_iff, Option.pure_def,
    Option.some.injEq]

theorem paramViolations_eq_nil_iff (chain : Chain) (ps : List (α × α)) :
    paramViolations token chain ps = [] ↔ Param.resolvesAll chain (ps.map (param token)) := by
  induction ps generalizing chain with
  | nil => simp [paramViolations, Param.resolvesAll]
  | cons p ps ih => simp [paramViolations, Param.resolvesAll, ih, param]

theorem declare_eq_of_tree? {c : Clause α} {tree : Stmt} (h : c.tree? token = some tree)
    (chain : Chain) : c.declare token chain = tree.declare chain := by
  cases c with
  | function name params type body =>
    obtain ⟨_, -, _, -, rfl⟩ := tree?_function_eq_some_iff.1 h
    rfl
  | binding mutability name value =>
    obtain ⟨_, -, rfl⟩ := Option.map_eq_some_iff.1 h
    rfl
  | returning value =>
    obtain ⟨_, -, rfl⟩ := Option.map_eq_some_iff.1 h
    rfl
  | bare value =>
    obtain ⟨_, -, rfl⟩ := Option.map_eq_some_iff.1 h
    rfl

mutual

theorem violations_eq_nil_iff (chain : Chain) : (c : Clause α) →
    (c.violations token chain = [] ↔ ∃ tree, c.tree? token = some tree ∧ tree.resolves chain)
  | .function name params type body => by
    have ih := violationsAll_eq_nil_iff
      (Param.declareAll (chain.declareFunction (token name).value).enter
        (params.map (param token))) body
    simp only [violations, List.append_eq_nil_iff, ensure_eq_nil_iff,
      paramViolations_eq_nil_iff, ih]
    constructor
    · rintro ⟨⟨⟨hname, hparams⟩, htype⟩, trees, htrees, hresolves⟩
      obtain ⟨returnType, hreturn⟩ := Option.isSome_iff_exists.1 htype
      refine ⟨.function (token name).value (params.map (param token)) returnType trees,
        tree?_function_eq_some_iff.2 ⟨returnType, hreturn, trees, htrees, rfl⟩, ?_⟩
      rw [Stmt.resolves, hname, hparams, hresolves]
      rfl
    · rintro ⟨tree, htree, hresolves⟩
      obtain ⟨returnType, hreturn, trees, htrees, rfl⟩ := tree?_function_eq_some_iff.1 htree
      simp only [Stmt.resolves, Bool.and_eq_true] at hresolves
      exact ⟨⟨hresolves.1, by simp [hreturn]⟩, trees, htrees, hresolves.2⟩
  | .binding mutability name value => by
    simp only [violations, tree?, List.append_eq_nil_iff, ensure_eq_nil_iff,
      Phrase.violations_eq_nil_iff]
    constructor
    · rintro ⟨hname, tree, htree, hresolves⟩
      refine ⟨_, Option.map_eq_some_iff.2 ⟨tree, htree, rfl⟩, ?_⟩
      rw [Stmt.resolves, hname, hresolves]
      rfl
    · rintro ⟨tree, htree, hresolves⟩
      obtain ⟨e, he, rfl⟩ := Option.map_eq_some_iff.1 htree
      rw [Stmt.resolves, Bool.and_eq_true] at hresolves
      exact ⟨hresolves.1, e, he, hresolves.2⟩
  | .returning value => by
    simp only [violations, tree?, Phrase.violations_eq_nil_iff, Option.map_eq_some_iff]
    constructor
    · rintro ⟨tree, htree, hresolves⟩
      exact ⟨_, ⟨tree, htree, rfl⟩, hresolves⟩
    · rintro ⟨_, ⟨tree, htree, rfl⟩, hresolves⟩
      exact ⟨tree, htree, hresolves⟩
  | .bare value => by
    simp only [violations, tree?, Phrase.violations_eq_nil_iff, Option.map_eq_some_iff]
    constructor
    · rintro ⟨tree, htree, hresolves⟩
      exact ⟨_, ⟨tree, htree, rfl⟩, hresolves⟩
    · rintro ⟨_, ⟨tree, htree, rfl⟩, hresolves⟩
      exact ⟨tree, htree, hresolves⟩

theorem violationsAll_eq_nil_iff (chain : Chain) : (cs : List (Clause α)) →
    (violationsAll token chain cs = [] ↔
      ∃ trees, trees? token cs = some trees ∧ Stmt.resolvesAll chain trees)
  | [] => by simp [violationsAll, trees?, Stmt.resolvesAll]
  | c :: cs => by
    have ihc := violations_eq_nil_iff chain c
    have ihcs := violationsAll_eq_nil_iff (c.declare token chain) cs
    simp only [violationsAll, List.append_eq_nil_iff, ihc, ihcs]
    constructor
    · rintro ⟨⟨t, ht, htr⟩, ⟨ts, hts, htsr⟩⟩
      rw [declare_eq_of_tree? ht] at htsr
      exact ⟨t :: ts, trees?_cons_eq_some_iff.2 ⟨t, ht, ts, hts, rfl⟩,
        by simp [Stmt.resolvesAll, htr, htsr]⟩
    · rintro ⟨trees, htrees, hresolves⟩
      obtain ⟨t, ht, ts, hts, rfl⟩ := trees?_cons_eq_some_iff.1 htrees
      rw [Stmt.resolvesAll, Bool.and_eq_true, ← declare_eq_of_tree? ht] at hresolves
      exact ⟨⟨t, ht, hresolves.1⟩, ⟨ts, hts, hresolves.2⟩⟩

end

end Clause

/-- The places of violations, in the order of the list, are places of the text in its order. -/
def Ordered (token : α → Token) (found : List (Violation α)) (us : List α) : Prop :=
  (found.map (·.spot)).Sublist us ∧ ∀ v ∈ found, v.fault.text? = some (token v.spot).value

namespace Ordered

variable {found found' : List (Violation α)} {us vs : List α}

theorem nil : Ordered token [] us :=
  ⟨List.nil_sublist us, by simp⟩

theorem append (h : Ordered token found us) (h' : Ordered token found' vs) :
    Ordered token (found ++ found') (us ++ vs) := by
  constructor
  · rw [List.map_append]
    exact h.1.append h'.1
  · intro v hv
    obtain hv | hv := List.mem_append.1 hv
    · exact h.2 v hv
    · exact h'.2 v hv

theorem cons (h : Ordered token found us) (t : α) : Ordered token found (t :: us) :=
  ⟨h.1.cons t, h.2⟩

theorem behind (h : Ordered token found us) : Ordered token found (us ++ vs) :=
  ⟨h.1.trans (List.sublist_append_left us vs), h.2⟩

theorem ensure {valid : Bool} {spot : α} {fault : String → Fault}
    (hfault : ∀ text, (fault text).text? = some text) :
    Ordered token (ensure token valid spot fault) [spot] := by
  cases valid with
  | true => exact nil
  | false => exact ⟨by simp [Grammar.ensure], by simp [Grammar.ensure, hfault]⟩

end Ordered

variable {us : List α} {n : Nat}

mutual

theorem Derives.ordered {level : Level} {us : List α} {e : Phrase α} {n : Nat} (chain : Chain) :
    Derives token level us e n → Ordered token (e.violations token chain) us
  | .integer _ => .ensure fun _ => rfl
  | .variable _ => .ensure fun _ => rfl
  | .callNil _ _ _ => (Ordered.ensure fun _ => rfl).append .nil
  | .call _ _ hargs => (Ordered.ensure fun _ => rfl).append ((hargs.ordered chain).cons _)
  | .group _ he _ => ((he.ordered chain).cons _).behind
  | .sign _ he => (he.ordered chain).cons _
  | .lift he => he.ordered chain
  | .binary _ hl _ hr => (hl.ordered chain).append ((hr.ordered chain).cons _)

theorem Arguments.ordered {us : List α} {es : List (Phrase α)} {n : Nat} (chain : Chain) :
    Arguments token us es n → Ordered token (Phrase.violationsAll token chain es) us
  | .last he _ => (he.ordered chain).append .nil
  | .cons he _ hes => (he.ordered chain).append ((hes.ordered chain).cons _)

end

theorem Parameters.ordered {ps : List (α × α)} (h : Parameters token us ps) (chain : Chain) :
    Ordered token (Clause.paramViolations token chain ps) us := by
  induction h generalizing chain with
  | last => exact (Ordered.ensure fun _ => rfl).append .nil
  | cons _ _ _ _ _ ih =>
    exact (Ordered.ensure fun _ => rfl).append ((((ih _).cons _).cons _).cons _)

theorem Signature.ordered {ps : List (α × α)} (h : Signature token us ps) (chain : Chain) :
    Ordered token (Clause.paramViolations token chain ps) us := by
  cases h with
  | nil => exact .nil
  | params _ hps => exact (hps.ordered chain).cons _

mutual

theorem Statement.ordered {us : List α} {c : Clause α} {n : Nat} (chain : Chain) :
    Statement token us c n → Ordered token (c.violations token chain) us
  | .function _ _ hps _ _ _ hbody _ _ => by
    rw [Clause.violations, List.append_assoc]
    apply Ordered.behind
    apply Ordered.append
    · exact ((Ordered.ensure fun _ => rfl).append (hps.ordered _)).cons _
    · exact ((Ordered.ensure fun _ => rfl).append ((hbody.ordered _).cons _)).cons _
  | .binding _ _ _ he _ =>
    (((Ordered.ensure fun _ => rfl).append ((he.ordered chain).cons _)).cons _).behind
  | .returning _ he _ => ((he.ordered chain).cons _).behind
  | .bare _ _ he => he.ordered chain

theorem Body.ordered {us : List α} {cs : List (Clause α)} {n : Nat} (chain : Chain) :
    Body token us cs n → Ordered token (Clause.violationsAll token chain cs) us
  | .nil => .nil
  | .semicolon _ hcs => (hcs.ordered chain).cons _
  | .cons hc hcs => (hc.ordered chain).append (hcs.ordered _)

end

end Scopewise.Grammar
