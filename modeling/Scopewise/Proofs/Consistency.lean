import Scopewise.Proofs.Parse.Account
import Scopewise.Proofs.Parse.ViableExpr

namespace Scopewise.Parse

open Scope

/-- What a checked parse does where a check fails: at a token that was to be an operator, and in
front of a statement that stands in a wrong number of scopes. -/
structure Alarm where
  operator : Token → Parser Expr
  scopes : Parser (Option Stmt)

namespace Alarm

def operandBy (alarm : Alarm) (n : Nat) (sub : BindingPower → Parser Expr) :
    OperandRule → Parser Expr
  | .sign => signedOr alarm.operator sub
  | rule => rule.parse n sub

def operators (alarm : Alarm) (rules : Rules) (sub : BindingPower → Parser Expr)
    (floor : BindingPower) : Nat → Expr → Parser Expr
  | 0, left => return left
  | n + 1, left => climb rules floor left fun power => do
    operators alarm rules sub floor n (← binaryOr alarm.operator sub left power)

def expression (alarm : Alarm) (rules : Rules) : Nat → BindingPower → Parser Expr
  | 0, _ => nested rules.limit (failHere (.unexpectedEnd "expression"))
  | n + 1, floor =>
    expressionOf rules.limit (operandOf rules (alarm.operandBy n (expression alarm rules n)))
      (alarm.operators rules (expression alarm rules n) floor n)

/-- Checks the number of open scopes in front of a statement. -/
def watch (alarm : Alarm) (functions : Nat) (stmt : Parser (Option Stmt)) :
    Parser (Option Stmt) := do
  if (← get).scopes.depth = 1 + functions then stmt else alarm.scopes

/-- A statement inside so many functions. -/
def statement (alarm : Alarm) (rules : Rules) : (n functions : Nat) → Parser (Option Stmt)
  | 0, functions => alarm.watch functions (failHere (.unexpectedEnd "statement"))
  | n + 1, functions => alarm.watch functions <|
    statementOf rules (alarm.expression rules (n + 1) .lowest)
      (function (n + 1) (block rules.limit (n + 1) (statement alarm rules n (functions + 1))))

def program (alarm : Alarm) (rules : Rules) (n : Nat) : Parser (List Stmt) :=
  programOf (topLevel (alarm.statement rules n 0) n)

/-- A checked parse of a program from its start. -/
def run (alarm : Alarm) (rules : Rules) (tokens : List Token) (file : String) :
    EStateM.Result Failure State (List Stmt) :=
  alarm.program rules tokens.length { rest := tokens, file }

end Alarm

variable {alarm : Alarm} {s t : State}

section Expressions

theorem exists_prefixOp {kind : Token.Kind} (h : Rules.standard.operand? kind = some .sign) :
    ∃ op, PrefixOp.ofKind? kind = some op := by
  cases kind with
  | plus => exact ⟨.plus, rfl⟩
  | dash => exact ⟨.minus, rfl⟩
  | _ => cases h

theorem exists_binaryOp {kind : Token.Kind} {power : BindingPower}
    (h : Rules.standard.power? kind = some power) : ∃ op, BinaryOp.ofKind? kind = some op := by
  obtain ⟨op, rfl, -⟩ := exists_op_of_power? h
  exact ⟨op, op.ofKind?_kind⟩

variable {sub : BindingPower → Parser Expr}

theorem run_signed_eq {kind : Token.Kind} (hs : s.pending.head?.map (·.kind) = some kind)
    (hkind : Rules.standard.operand? kind = some .sign) :
    (signed sub).run s = (signedOr alarm.operator sub).run s := by
  refine Ends.run_bind (Steady.advance hs) rfl fun u t hu => ?_
  obtain ⟨op, hop⟩ := exists_prefixOp hkind
  rw [← hu.2.1] at hop
  rw [hop]

theorem run_operand_eq (n : Nat) :
    (operand .standard n sub).run s = (operandOf .standard (alarm.operandBy n sub)).run s := by
  refine Ends.run_bind Steady.peek rfl fun token? t htoken => ?_
  cases token? with
  | none => rfl
  | some u =>
    have hhead : t.pending.head?.map (·.kind) = some u.kind := by rw [← htoken.2.2]; rfl
    cases hrule : Rules.standard.operand? u.kind with
    | none => simp only [hrule]
    | some rule =>
      simp only [hrule]
      cases rule with
      | sign => exact run_signed_eq hhead hrule
      | literal | name | group => rfl

theorem run_binary_eq {kind : Token.Kind} {power : BindingPower} (left : Expr)
    (hs : s.pending.head?.map (·.kind) = some kind)
    (hkind : Rules.standard.power? kind = some power) :
    (binary sub left power).run s = (binaryOr alarm.operator sub left power).run s := by
  refine Ends.run_bind (Steady.advance hs) rfl fun u t hu => ?_
  obtain ⟨op, hop⟩ := exists_binaryOp hkind
  rw [← hu.2.1] at hop
  rw [hop]

theorem run_operators_eq (h : ∀ power s, Steady (sub power) s fun _ _ => True)
    (floor : BindingPower) (n : Nat) (left : Expr) :
    (operators .standard sub floor n left).run s =
      (alarm.operators .standard sub floor n left).run s := by
  induction n generalizing s left with
  | zero => rfl
  | succ n ih =>
    refine Ends.run_bind Steady.peekKind rfl fun kind? t hkind => ?_
    cases hpower : kind?.bind Rules.standard.power? with
    | none => rfl
    | some power =>
      obtain ⟨kind, rfl, hpower'⟩ := Option.bind_eq_some_iff.1 hpower
      have hhead := hkind.2.symm
      by_cases hfloor : power ≤ floor
      · simp only [if_pos hfloor]
      · simp only [if_neg hfloor]
        exact Ends.run_bind (steady_binary h left power hhead) (run_binary_eq left hhead hpower')
          fun e r _ => ih e

/-- The checks on operators pass in every state. -/
theorem expression_eq (alarm : Alarm) (n : Nat) :
    expression .standard n = alarm.expression .standard n := by
  induction n with
  | zero => rfl
  | succ n ih =>
    funext floor s
    refine run_nested _ ?_
    rw [← ih]
    refine Ends.run_bind (steady_operand (steady_expression n) n) (run_operand_eq n)
      fun left t _ => ?_
    exact run_operators_eq (steady_expression n) floor n left

end Expressions

section Statements

/-- The program's own scope is open, and one for each of so many functions. -/
def State.Inside (s : State) (functions : Nat) : Prop :=
  ∃ frame outer events, s.Logged (frame :: outer) events ∧ outer.length = functions

variable {functions fuel : Nat}

namespace State.Inside

theorem same (h : s.Inside functions) (hs : s.Same t) : t.Inside functions := by
  obtain ⟨frame, outer, events, hlogged, hlength⟩ := h
  exact ⟨frame, outer, events, hlogged.same hs, hlength⟩

theorem descend (h : s.Inside functions) : s.descend.Inside functions := by
  obtain ⟨frame, outer, events, hlogged, hlength⟩ := h
  exact ⟨frame, outer, events, ⟨hlogged.follows, hlogged.journal⟩, hlength⟩

theorem depth (h : s.Inside functions) : s.scopes.depth = 1 + functions := by
  obtain ⟨frame, outer, events, hlogged, rfl⟩ := h
  rw [hlogged.follows.depth, List.length_cons, Nat.add_comm]

end State.Inside

variable {stmt stmt' : Parser (Option Stmt)}

/-- Behind a statement as many scopes are open as in front of it. -/
theorem sound_inside {kind : Token.Kind} (h : SoundStmt stmt fuel) (hs : s.Inside functions)
    (hkind : s.pending.head?.map (·.kind) = some kind) (hfuel : s.rest.length ≤ fuel) :
    Sound stmt s fun _ t => t.Inside functions := by
  obtain ⟨frame, outer, events, hlogged, rfl⟩ := hs
  refine (h hlogged hkind hfuel).mono fun stmt? t ht => ?_
  obtain ⟨frame', hframe⟩ := Stmt.exists_frame_declareAll frame outer stmt?.toList
  unfold LoggedStmts at ht
  rw [hframe] at ht
  exact ⟨frame', outer, _, ht, rfl⟩

theorem run_watch (hs : s.Inside functions) : stmt.run s = (alarm.watch functions stmt).run s := by
  show stmt.run s =
    (if s.scopes.depth = 1 + functions then stmt else alarm.scopes : Parser _).run s
  rw [if_pos hs.depth]

/-- Inside so many functions, in front of a token and with fuel for all that are left, the two
parsers run alike. -/
def Alike (functions fuel : Nat) (stmt stmt' : Parser (Option Stmt)) : Prop :=
  ∀ ⦃s : State⦄ ⦃kind : Token.Kind⦄, s.Inside functions →
    s.pending.head?.map (·.kind) = some kind → s.rest.length ≤ fuel → stmt.run s = stmt'.run s

theorem Alike.turn {loop loop' : Parser (List Stmt)} {kind : Token.Kind}
    (h : Alike functions fuel stmt stmt') (hstmt : SoundStmt stmt fuel) (hs : s.Inside functions)
    (hkind : s.pending.head?.map (·.kind) = some kind) (hfuel : s.rest.length ≤ fuel)
    (hloop : ∀ r : State, r.Inside functions → r.rest.length ≤ fuel → loop.run r = loop'.run r) :
    (turn stmt loop).run s = (turn stmt' loop').run s := by
  refine Ends.run_bind (sound_inside hstmt hs hkind hfuel) (h hs hkind hfuel) fun stmt? t ht => ?_
  have hrun := hloop t ht.2 (ht.1.trans hfuel)
  cases stmt? with
  | none => exact hrun
  | some first => exact run_bind_congr hrun _

theorem Alike.stmtLoop {ended closed loop loop' : Parser (List Stmt)}
    (h : Alike functions fuel stmt stmt') (hstmt : SoundStmt stmt fuel) (hs : s.Inside functions)
    (hfuel : s.rest.length ≤ fuel)
    (hloop : ∀ r : State, r.Inside functions → r.rest.length ≤ fuel → loop.run r = loop'.run r) :
    (stmtLoop ended closed (Parse.turn stmt loop)).run s =
      (stmtLoop ended closed (Parse.turn stmt' loop')).run s := by
  refine Ends.run_bind Steady.peekKind rfl fun kind? t hkind => ?_
  split
  · rfl
  · rfl
  · exact h.turn hstmt (hs.same hkind.1) hkind.2.symm (hkind.1.shorter.trans hfuel) hloop

theorem Alike.blockBody (h : Alike functions fuel stmt stmt') (hstmt : SoundStmt stmt fuel)
    (n : Nat) (hs : s.Inside functions) (hfuel : s.rest.length ≤ fuel) :
    (blockBody stmt n).run s = (blockBody stmt' n).run s := by
  induction n generalizing s with
  | zero => rfl
  | succ n ih => exact h.stmtLoop hstmt hs hfuel fun _ => ih

theorem Alike.topLevel (h : Alike functions fuel stmt stmt') (hstmt : SoundStmt stmt fuel)
    (n : Nat) (hs : s.Inside functions) (hfuel : s.rest.length ≤ fuel) :
    (topLevel stmt n).run s = (topLevel stmt' n).run s := by
  induction n generalizing s with
  | zero => rfl
  | succ n ih => exact h.stmtLoop hstmt hs hfuel fun _ => ih

theorem Alike.block (h : Alike functions fuel stmt stmt') (hstmt : SoundStmt stmt fuel) (n : Nat)
    (hs : s.Inside functions) (hfuel : s.rest.length ≤ fuel) :
    (block (some Rules.maxNesting) n stmt).run s =
      (block (some Rules.maxNesting) n stmt').run s := by
  unfold Parse.block blockOf
  rw [discard_bind, discard_bind]
  refine Ends.run_bind Steady.expect rfl fun _ t ht => ?_
  have hinside := (hs.same ht.1).descend
  exact run_bind_congr (run_nested _ (h.blockBody hstmt n hinside (ht.1.shorter.trans hfuel))) _

/-- The body of a function stands one scope deeper than the function. -/
theorem Alike.function (h : Alike (functions + 1) fuel stmt stmt') (hstmt : SoundStmt stmt fuel)
    (n m : Nat) {kind : Token.Kind} (hs : s.Inside functions)
    (hkind : s.pending.head?.map (·.kind) = some kind) (hfuel : s.rest.length ≤ fuel + 1) :
    (function n (Parse.block (some Rules.maxNesting) m stmt)).run s =
      (function n (Parse.block (some Rules.maxNesting) m stmt')).run s := by
  obtain ⟨frame, outer, events, hlogged, rfl⟩ := hs
  unfold Parse.function functionOf
  rw [discard_bind, discard_bind]
  refine Ends.run_bind (Steady.advance hkind) rfl fun _ t ht => ?_
  have hlead := ht.2.2
  have hlogged := hlogged.same ht.1
  refine Ends.run_bind steady_freshFunction rfl fun name t' ht' => ?_
  have hname := ht'.1.shorter
  have hlogged := hlogged.same ht'.1
  refine Ends.run_bind (hlogged.declareFunction name) rfl fun _ t hnamed => ?_
  refine Ends.run_bind hnamed.2.enter rfl fun _ t hentered => ?_
  refine Ends.run_bind (sound_params n hentered.2) rfl fun ps t hps => ?_
  obtain ⟨inner, hinner⟩ :=
    Param.exists_frame_declareAll {} (Chain.declareFunction (frame :: outer) name) ps
  obtain ⟨hshorter, hparams⟩ := hps
  unfold LoggedParams at hparams
  rw [hinner] at hparams
  rw [discard_bind, discard_bind]
  refine Ends.run_bind Steady.expect rfl fun _ t hcolon => ?_
  have hcolon' := hcolon.1.shorter
  refine Ends.run_bind steady_returnType rfl fun type t htype => ?_
  have htype' := htype.1.shorter
  refine run_bind_congr (h.block hstmt m ?_ ?_) _
  · exact ⟨inner, _, _, (hparams.same hcolon.1).same htype.1, rfl⟩
  · have hnamed' := hnamed.1
    have hentered' := hentered.1
    omega

theorem alike_statement (alarm : Alarm) (fuel functions : Nat) :
    Alike functions fuel (statement .standard fuel)
      (alarm.statement .standard fuel functions) := by
  induction fuel generalizing functions with
  | zero =>
    intro s kind hs _ _
    exact run_watch hs
  | succ fuel ih =>
    intro s kind hs hkind hfuel
    refine Eq.trans ?_ (run_watch hs)
    rw [← expression_eq]
    refine Ends.run_bind Steady.peek rfl fun token? t htoken => ?_
    cases token? with
    | none => rfl
    | some u =>
      have hhead : t.pending.head?.map (·.kind) = some u.kind := by rw [← htoken.2.2]; rfl
      have hfuel' := htoken.1.shorter.trans hfuel
      dsimp only
      cases u.kind with
      | identifier =>
        cases Rules.standard.stmt? u.value with
        | none => rfl
        | some rule =>
          refine run_bind_congr ?_ _
          cases rule with
          | function =>
            exact (ih (functions + 1)).function (sound_statement fuel) _ _ (hs.same htoken.1)
              hhead hfuel'
          | binding | returning => simp only [StmtRule.parseOf]
      | _ => rfl

/-- The checked parse is the parse. -/
theorem run_program_checked (alarm : Alarm) (tokens : List Token) (file : String) :
    (program .standard tokens.length).run { rest := tokens, file } =
      (alarm.program .standard tokens.length).run { rest := tokens, file } := by
  have hstart : State.Logged { rest := tokens, file } [] [] := ⟨.nil, rfl⟩
  refine Ends.run_bind hstart.enter rfl fun _ s hs => ?_
  have hbuiltins : Sound (builtins.forM fun name => change (.function name)) s fun _ t =>
      t.Logged [{ functions := ["echo"] }] [.entered 1, .functionDeclared "echo"] :=
    (hs.2.declareFunction "echo").bind fun _ t _ ht => .pure ht
  refine Ends.run_bind hbuiltins rfl fun _ t ht => ?_
  have hinside : t.Inside 0 := ⟨_, _, _, ht.2, rfl⟩
  exact run_bind_congr ((alike_statement alarm _ 0).topLevel (sound_statement _) _ hinside
    (ht.1.trans hs.1)) _

end Statements

/-- A parse of any tokens keeps track of itself. It leaves no scope open if it succeeds; if it
fails, then neither for want of a scope nor because it takes a token or reads a statement where none
is left. And no check of a checked parse ever fails: whatever would be done then, the parse is the
same. -/
theorem run_consistent (tokens : List Token) (file : String) :
    (match run .standard tokens file with
      | .ok _ last => last.scopes.scopes = []
      | .error failure _ =>
        failure.diagnostic.fault ≠ .scopeUnderflow ∧
        failure.diagnostic.fault ≠ .unexpectedEnd "more input" ∧
        failure.diagnostic.fault ≠ .unexpectedEnd "statement") ∧
    ∀ alarm : Alarm, alarm.run .standard tokens file = run .standard tokens file := by
  constructor
  · have hsound := sound_program tokens file
    unfold Sound Ends at hsound
    change match (program .standard tokens.length).run { rest := tokens, file } with
      | .ok _ last => last.scopes.scopes = []
      | .error failure _ => _
    split
    · next last hrun =>
      rw [hrun] at hsound
      exact hsound.2.1
    · next failure last hrun =>
      rw [hrun] at hsound
      have hinternal : failure.diagnostic.fault.isInternal = false := hsound
      refine ⟨?_, ?_, ?_⟩ <;> intro hfault <;> rw [hfault] at hinternal <;> cases hinternal
  · intro alarm
    exact (run_program_checked alarm tokens file).symm

end Scopewise.Parse
