import Scopewise.Proofs.Parse.Course

namespace Scopewise.Parse

/-- What a metered parse fails with where its fuel is used up, where a loop comes round again
without having taken a token, and where a loop asks for a statement in front of a closing brace.
Fuel is used up at every call and at every turn of a loop. -/
structure Meter where
  exhausted : Failure
  stalled : Failure
  closing : Failure
deriving Inhabited

namespace Meter

/-- Goes on if a token has been taken since the parse stood at `before`. -/
def progressed (meter : Meter) (before : State) : Parser Unit := do
  if (← get).pending.length < before.pending.length then return () else throw meter.stalled

def list {α : Type} (meter : Meter) (element : Parser α) : Nat → Parser (List α)
  | 0 => throw meter.exhausted
  | n + 1 => do
    let before ← get
    let first ← element
    separated first do
      meter.progressed before
      meter.list element n

def operandBy (meter : Meter) (n : Nat) (sub : BindingPower → Parser Expr) :
    OperandRule → Parser Expr
  | .name => referenceOf (enclosed (meter.list (sub .lowest) n))
  | rule => rule.parse n sub

def operators (meter : Meter) (rules : Rules) (sub : BindingPower → Parser Expr)
    (floor : BindingPower) : Nat → Expr → Parser Expr
  | 0, _ => throw meter.exhausted
  | n + 1, left => do
    let before ← get
    climb rules floor left fun power => do
      let next ← binary sub left power
      meter.progressed before
      meter.operators rules sub floor n next

def expression (meter : Meter) (rules : Rules) : Nat → BindingPower → Parser Expr
  | 0, _ => throw meter.exhausted
  | n + 1, floor =>
    expressionOf rules.limit (operandOf rules (meter.operandBy n (meter.expression rules n)))
      (meter.operators rules (meter.expression rules n) floor n)

/-- Goes on if there is no closing brace ahead. -/
def unclosed (meter : Meter) : Parser Unit := do
  if (← get).pending.head?.map (·.kind) = some .closeCurly then throw meter.closing else return ()

/-- A statement in a turn of a loop that began at `before`. -/
def guarded (meter : Meter) (before : State) (stmt : Parser (Option Stmt)) :
    Parser (Option Stmt) := do
  meter.unclosed
  let stmt? ← stmt
  meter.progressed before
  return stmt?

/-- A loop over statements, with `head` for the head of the loop. -/
def stmts (meter : Meter) (head : Parser (List Stmt) → Parser (List Stmt))
    (stmt : Parser (Option Stmt)) : Nat → Parser (List Stmt)
  | 0 => throw meter.exhausted
  | n + 1 => do
    let before ← get
    head (turn (meter.guarded before stmt) (meter.stmts head stmt n))

def statement (meter : Meter) (rules : Rules) : Nat → Parser (Option Stmt)
  | 0 => throw meter.exhausted
  | n + 1 =>
    statementOf rules (meter.expression rules (n + 1) .lowest)
      (functionOf (enclosed (meter.list param (n + 1)))
        (blockOf rules.limit (meter.stmts untilBrace (meter.statement rules n) (n + 1))))

def program (meter : Meter) (rules : Rules) (n : Nat) : Parser (List Stmt) :=
  programOf (meter.stmts untilEnd (meter.statement rules n) n)

/-- A metered parse of a program from its start, with so much fuel. -/
def run (meter : Meter) (rules : Rules) (fuel : Nat) (tokens : List Token) (file : String) :
    EStateM.Result Failure State (List Stmt) :=
  meter.program rules fuel { rest := tokens, file }

end Meter

variable {α β : Type} {meter : Meter} {rules : Rules} {s t r : State} {n fuel : Nat}

/-- `p` goes on in the tokens and ends in `good` if it succeeds. -/
def Passes (p : Parser α) (s : State) (good : α → State → Prop) : Prop :=
  Yields p s fun a t => t.rest <:+ s.rest ∧ good a t

theorem Proceeds.passes {limit : Option Nat} {effect : Effect} {p : Parser α}
    {good : α → State → Prop} (h : Proceeds limit effect p s good) : Passes p s good :=
  Ends.mono h (fun _ _ ha => ⟨ha.1.suffix, ha.2.2⟩) fun _ _ _ => trivial

/-- `t` stands behind at least one token that `s` stands in front of. -/
structure State.Behind (s t : State) : Prop where
  suffix : t.rest <:+ s.rest
  consumes : Consumes s () t

namespace State.Behind

theorem after (h : s.Behind t) (htr : r.rest <:+ t.rest) : s.Behind r :=
  ⟨htr.trans h.suffix, h.consumes.after htr⟩

theorem before (h : t.Behind r) (hst : t.rest <:+ s.rest) : s.Behind r :=
  ⟨h.suffix.trans hst, h.consumes.behind hst⟩

theorem length_lt (h : s.Behind t) : t.rest.length < s.rest.length :=
  h.consumes.length_lt h.suffix

end State.Behind

section Congruence

variable {p q : Parser α} {mid : α → State → Prop}

theorem Passes.run_bind {f g : α → Parser β} (hp : Passes p s mid) (hpq : p.run s = q.run s)
    (hfg : ∀ a t, t.rest <:+ s.rest → mid a t → (f a).run t = (g a).run t) :
    (p >>= f).run s = (q >>= g).run s :=
  Ends.run_bind hp hpq fun a t ha => hfg a t ha.1 ha.2

/-- The same move in front of two parsers. -/
theorem Passes.run_after {f g : α → Parser β} (hp : Passes p s mid)
    (hfg : ∀ a t, t.rest <:+ s.rest → mid a t → (f a).run t = (g a).run t) :
    (p >>= f).run s = (p >>= g).run s :=
  hp.run_bind rfl hfg

/-- The same move in front of two parsers, which takes a token. -/
theorem Passes.run_behind {f g : α → Parser β} (hp : Passes p s (Consumes s))
    (hfg : ∀ a t, s.Behind t → (f a).run t = (g a).run t) :
    (p >>= f).run s = (p >>= g).run s :=
  hp.run_after fun a t hst ht => hfg a t ⟨hst, ht⟩

theorem Passes.run_discard {f g : Unit → Parser β} (hp : Passes p s (Consumes s))
    (hfg : ∀ t, s.Behind t → (f ()).run t = (g ()).run t) :
    (Functor.discard p >>= f).run s = (Functor.discard p >>= g).run s := by
  rw [discard_bind, discard_bind]
  exact hp.run_behind fun _ => hfg

theorem passes_peek : Passes peek s fun _ _ => True :=
  (Proceeds.peek.mono fun _ _ _ _ => trivial : Proceeds none .none _ _ _).passes

theorem passes_peekKind : Passes peekKind s fun a t =>
    a = s.pending.head?.map (·.kind) ∧ t.pending = s.pending :=
  (Proceeds.peekKind : Proceeds none .none _ _ _).passes

theorem passes_advance : Passes advance s (Consumes s) :=
  (Proceeds.advance.mono fun _ _ _ => consumes_of_pending : Proceeds none .none _ _ _).passes

theorem passes_expect {kind : Token.Kind} : Passes (expect kind) s (Consumes s) :=
  (Proceeds.expect.mono fun _ _ _ => consumes_of_pending : Proceeds none .none _ _ _).passes

theorem passes_change (change : Scope.Change) : Passes (Parse.change change) s fun _ _ => True :=
  Ends.mono (ends_change_onward none change) (fun _ _ ha => ⟨ha.1.suffix, trivial⟩)
    fun _ _ _ => trivial

theorem passes_expression (rules : Rules) (n : Nat) (floor : BindingPower) (s : State) :
    Passes (expression rules n floor) s (Consumes s) :=
  (proceeds_expression rules n floor s : Proceeds _ .none _ _ _).passes

end Congruence

-- A body runs alike with other parts if the parts run alike wherever the body runs them, which is
-- behind a token that the body has taken or, if it only looks ahead, no further back than it began.
section Bodies

theorem run_separated {first : α} {list list' : Parser (List α)}
    (h : ∀ t, s.Behind t → list.run t = list'.run t) :
    (separated first list).run s = (separated first list').run s := by
  refine passes_peekKind.run_after fun kind t hst _ => ?_
  split
  · exact passes_advance.run_discard fun r hr => run_bind_congr (h r (hr.before hst)) _
  · rfl
  · rfl

theorem run_enclosed {list list' : Parser (List α)}
    (h : ∀ t, s.Behind t → list.run t = list'.run t) :
    (enclosed list).run s = (enclosed list').run s := by
  refine passes_expect.run_discard fun t ht => ?_
  refine passes_peekKind.run_after fun kind r htr _ => ?_
  split
  · rfl
  · exact h r (ht.after htr)

theorem run_referenceOf {args args' : Parser (List Expr)}
    (h : ∀ t, s.Behind t → args.run t = args'.run t) :
    (referenceOf args).run s = (referenceOf args').run s := by
  refine passes_expect.run_behind fun u t ht => ?_
  refine passes_peekKind.run_after fun kind r htr _ => ?_
  split
  · rw [EStateM.run_bind, EStateM.run_bind]
    change (if r.scopes.hasFunction u.value then _ else _ : Parser Expr).run r =
      (if r.scopes.hasFunction u.value then _ else _ : Parser Expr).run r
    split
    · exact run_bind_congr (h r (ht.after htr)) _
    · rfl
  · rfl

theorem run_signed {sub sub' : BindingPower → Parser Expr}
    (h : ∀ power t, s.Behind t → (sub power).run t = (sub' power).run t) :
    (signed sub).run s = (signed sub').run s := by
  refine passes_advance.run_behind fun u t ht => ?_
  split
  · exact run_bind_congr (h .unary t ht) _
  · rfl

theorem run_group {sub sub' : Parser Expr} (h : ∀ t, s.Behind t → sub.run t = sub'.run t) :
    (group sub).run s = (group sub').run s :=
  passes_expect.run_discard fun t ht => run_bind_congr (h t ht) _

theorem run_operandOf {parse parse' : OperandRule → Parser Expr}
    (h : ∀ rule t, t.rest <:+ s.rest → (parse rule).run t = (parse' rule).run t) :
    (operandOf rules parse).run s = (operandOf rules parse').run s := by
  refine passes_peek.run_after fun token? t hst _ => ?_
  split
  · rfl
  · split
    · rfl
    · exact h _ t hst

theorem run_binary {sub sub' : BindingPower → Parser Expr} (left : Expr) (power : BindingPower)
    (h : ∀ t, s.Behind t → (sub power).run t = (sub' power).run t) :
    (binary sub left power).run s = (binary sub' left power).run s := by
  refine passes_advance.run_behind fun u t ht => ?_
  split
  · exact run_bind_congr (h t ht) _
  · rfl

theorem run_climb {floor : BindingPower} {left : Expr} {more more' : BindingPower → Parser Expr}
    (h : ∀ power t, t.rest <:+ s.rest → (more power).run t = (more' power).run t) :
    (climb rules floor left more).run s = (climb rules floor left more').run s := by
  refine passes_peekKind.run_after fun kind t hst _ => ?_
  split
  · rfl
  · split
    · rfl
    · exact h _ t hst

theorem run_binding {value value' : Parser Expr}
    (h : ∀ t, s.Behind t → value.run t = value'.run t) :
    (binding value).run s = (binding value').run s := by
  refine passes_advance.run_behind fun lead t ht => ?_
  refine (proceeds_freshVariable : Proceeds none .none _ _ _).passes.run_after ?_
  intro name r htr _
  refine passes_expect.run_discard fun q hq => ?_
  exact run_bind_congr (h q (ht.after (hq.suffix.trans htr))) _

theorem run_returning {value value' : Parser Expr}
    (h : ∀ t, s.Behind t → value.run t = value'.run t) :
    (returning value).run s = (returning value').run s :=
  passes_advance.run_discard fun t ht => run_bind_congr (h t ht) _

/-- A loop over statements goes on only where no closing brace is ahead. -/
theorem run_stmtLoop {ended closed more more' : Parser (List Stmt)}
    (h : ∀ t, t.rest <:+ s.rest → t.pending.head?.map (·.kind) ≠ some .closeCurly →
      more.run t = more'.run t) :
    (stmtLoop ended closed more).run s = (stmtLoop ended closed more').run s := by
  refine passes_peekKind.run_after fun kind t hst hkind => ?_
  rw [← hkind.2] at hkind
  split
  · rfl
  · rfl
  · next hopen => exact h t hst (hkind.1 ▸ by simpa using hopen)

theorem run_blockOf {limit : Option Nat} {body body' : Parser (List Stmt)}
    (h : ∀ t, s.Behind t → body.run t = body'.run t) :
    (blockOf limit body).run s = (blockOf limit body').run s := by
  refine passes_expect.run_discard fun t ht => ?_
  exact run_bind_congr (run_nested limit (h t.descend ⟨ht.suffix, ht.consumes⟩)) _

theorem run_functionOf {params params' : Parser (List Param)} {body body' : Parser (List Stmt)}
    (hpasses : ∀ t, Passes params t fun _ _ => True)
    (hparams : ∀ t, s.Behind t → params.run t = params'.run t)
    (hbody : ∀ t, s.Behind t → body.run t = body'.run t) :
    (functionOf params body).run s = (functionOf params' body').run s := by
  refine passes_advance.run_discard fun t ht => ?_
  refine (proceeds_freshFunction : Proceeds none .none _ _ _).passes.run_after ?_
  intro name r htr _
  refine (passes_change _).run_after fun _ r' hrr' _ => ?_
  refine (passes_change _).run_after fun _ q hr'q _ => ?_
  have hq := ht.after ((hr'q.trans hrr').trans htr)
  refine (hpasses q).run_bind (hparams q hq) fun _ w hqw _ => ?_
  refine passes_expect.run_discard fun x hx => ?_
  refine (proceeds_returnType : Proceeds none .none _ _ _).passes.run_after fun type y hxy _ => ?_
  exact run_bind_congr (hbody y (hq.after ((hxy.trans hx.suffix).trans hqw))) _

theorem run_statementOf {value value' : Parser Expr} {function function' : Parser Stmt}
    (hvalue : ∀ t, t.rest <:+ s.rest → value.run t = value'.run t)
    (hfunction : ∀ t, t.rest <:+ s.rest → function.run t = function'.run t) :
    (statementOf rules value function).run s = (statementOf rules value' function').run s := by
  refine passes_peek.run_after fun token? t hst _ => ?_
  cases token? with
  | none => rfl
  | some u =>
    dsimp only
    cases u.kind with
    | identifier =>
      cases rules.stmt? u.value with
      | none => exact run_bind_congr (hvalue t hst) _
      | some rule =>
        refine run_bind_congr ?_ _
        have hbehind {r : State} (hr : t.Behind r) := hvalue r (hr.suffix.trans hst)
        cases rule with
        | function => exact hfunction t hst
        | binding => exact run_binding fun _ => hbehind
        | returning => exact run_returning fun _ => hbehind
    | _ => rfl

theorem run_programOf {body body' : Parser (List Stmt)}
    (h : ∀ t, t.rest <:+ s.rest → body.run t = body'.run t) :
    (programOf body).run s = (programOf body').run s := by
  refine (passes_change _).run_after fun _ t hst _ => ?_
  have hnames : Passes (builtins.forM fun name => change (.function name)) t fun _ _ => True :=
    (passes_change (.function "echo")).bind fun _ r hr => .pure hr
  exact hnames.run_after fun _ r htr _ => run_bind_congr (h r (htr.trans hst)) _

end Bodies

/-- `p` fails where it stands, for want of what `expected` describes. -/
def Lacks (expected : String) (p : Parser α) (s : State) : Prop :=
  p.run s = .error ⟨⟨.unexpectedEnd expected, s.position⟩, s.depth⟩ s

section Ended

variable {expected : String} {p : Parser α} {f : α → Parser β}

theorem Lacks.bind (h : Lacks expected p s) : Lacks expected (p >>= f) s := by
  unfold Lacks
  rw [EStateM.run_bind, h]

theorem run_peek_of_rest_nil (h : s.rest = []) : peek.run s = .ok none s := by
  have hskip : s.skipNewlines = s := by
    rw [State.skipNewlines, h]
    change { s with rest := [], line := s.line + 0 } = s
    rw [← h, UInt32.add_zero]
  change EStateM.Result.ok s.skipNewlines.rest.head? s.skipNewlines = _
  rw [hskip, h, List.head?_nil]

theorem run_peekKind_of_rest_nil (h : s.rest = []) : peekKind.run s = .ok none s := by
  unfold peekKind
  rw [EStateM.run_bind, run_peek_of_rest_nil h]
  rfl

theorem lacks_unexpected (h : s.rest = []) : Lacks expected (unexpected (α := α) expected) s := by
  unfold Lacks unexpected
  rw [EStateM.run_bind, run_peek_of_rest_nil h]
  rfl

theorem lacks_expectNamed (h : s.rest = []) (kind : Token.Kind) :
    Lacks expected (expectNamed kind expected) s := by
  unfold Lacks expectNamed
  rw [EStateM.run_bind, run_peekKind_of_rest_nil h]
  exact lacks_unexpected h

end Ended

theorem run_get_bind (f : State → Parser β) : (get >>= f).run s = (f s).run s :=
  rfl

/-- A loop that has taken a token goes on. -/
theorem run_progressed (h : s.Behind t) (f : Unit → Parser β) :
    (meter.progressed s >>= f).run t = (f ()).run t := by
  have hrun : (meter.progressed s).run t = .ok () t := by
    unfold Meter.progressed
    rw [run_get_bind, if_pos (show t.pending.length < s.pending.length from h.consumes)]
    rfl
  rw [EStateM.run_bind, hrun]

theorem run_unclosed (h : s.pending.head?.map (·.kind) ≠ some .closeCurly) (f : Unit → Parser β) :
    (meter.unclosed >>= f).run s = (f ()).run s := by
  have hrun : meter.unclosed.run s = .ok () s := by
    unfold Meter.unclosed
    rw [run_get_bind, if_neg h]
    rfl
  rw [EStateM.run_bind, hrun]

theorem run_list_metered {element element' : Parser α} {mid : α → State → Prop}
    {list : Parser (List α)} (hpasses : Passes element s mid)
    (helement : element.run s = element'.run s)
    (hlist : ∀ t, s.Behind t → list.run t = (meter.list element' n).run t) :
    (do let first ← element; separated first list).run s =
      (meter.list element' (n + 1)).run s := by
  unfold Meter.list
  rw [run_get_bind]
  refine hpasses.run_bind helement fun first t hst _ => run_separated fun r hr => ?_
  rw [run_progressed (hr.before hst)]
  exact hlist r (hr.before hst)

section Expressions

/-- With a bound of the tokens that are left, and with more fuel than there are, an expression runs
as without a meter. -/
def MeteredExpr (meter : Meter) (rules : Rules) (n fuel : Nat) : Prop :=
  ∀ ⦃s : State⦄ (floor : BindingPower), s.rest.length ≤ n → s.rest.length < fuel →
    (expression rules n floor).run s = (meter.expression rules fuel floor).run s

theorem run_argumentList_metered (h : MeteredExpr meter rules n fuel) (m count : Nat)
    (hn : s.rest.length ≤ n) (hfuel : s.rest.length < fuel) (hm : s.rest.length ≤ m)
    (hcount : s.rest.length < count) :
    (argumentList (expression rules n .lowest) m).run s =
      (meter.list (meter.expression rules fuel .lowest) count).run s := by
  obtain ⟨count, rfl⟩ := Nat.exists_eq_add_one_of_ne_zero (Nat.ne_zero_of_lt hcount)
  induction m generalizing s count with
  | zero =>
    -- an argument takes a token, and there is none left
    unfold argumentList Meter.list
    rw [discard_bind, run_get_bind]
    refine (passes_expression rules n .lowest s).run_bind (h .lowest hn hfuel) fun e t hst ht => ?_
    have hlt := ht.length_lt hst
    omega
  | succ m ih =>
    refine run_list_metered (passes_expression rules n .lowest s) (h .lowest hn hfuel) ?_
    intro t ht
    have hlt := ht.length_lt
    obtain ⟨count, rfl⟩ := Nat.exists_eq_add_one_of_ne_zero (show count ≠ 0 by omega)
    exact ih (by omega) (by omega) (by omega) count (by omega)

theorem run_operand_metered (h : MeteredExpr meter rules n fuel) (hn : s.rest.length ≤ n + 1)
    (hfuel : s.rest.length ≤ fuel) :
    (operand rules n (expression rules n)).run s =
      (operandOf rules (meter.operandBy fuel (meter.expression rules fuel))).run s := by
  refine run_operandOf fun rule t hst => ?_
  have hle := hst.length_le
  have hsub (power : BindingPower) (r : State) (hr : t.Behind r) :
      (expression rules n power).run r = (meter.expression rules fuel power).run r := by
    have hlt := hr.length_lt
    exact h power (by omega) (by omega)
  cases rule with
  | literal => rfl
  | name =>
    refine run_referenceOf fun r hr => run_enclosed fun q hq => ?_
    have hlt := hr.length_lt
    have hlt' := hq.length_lt
    exact run_argumentList_metered h n fuel (by omega) (by omega) (by omega) (by omega)
  | sign => exact run_signed hsub
  | group => exact run_group (hsub .lowest)

theorem run_operators_metered (h : MeteredExpr meter rules n fuel) (floor : BindingPower)
    (m count : Nat) (left : Expr) (hn : s.rest.length ≤ n) (hfuel : s.rest.length < fuel)
    (hm : s.rest.length ≤ m) (hcount : s.rest.length < count) :
    (operators rules (expression rules n) floor m left).run s =
      (meter.operators rules (meter.expression rules fuel) floor count left).run s := by
  obtain ⟨count, rfl⟩ := Nat.exists_eq_add_one_of_ne_zero (Nat.ne_zero_of_lt hcount)
  induction m generalizing s left count with
  | zero =>
    -- where the bound is used up, no operator can follow
    have hrest : s.rest = [] := List.eq_nil_of_length_eq_zero (Nat.le_zero.1 hm)
    unfold operators Meter.operators climb
    rw [run_get_bind, EStateM.run_bind, run_peekKind_of_rest_nil hrest]
    rfl
  | succ m ih =>
    unfold operators Meter.operators
    rw [run_get_bind]
    refine run_climb fun power t hst => ?_
    have hle := hst.length_le
    have hbinary : (binary (expression rules n) left power).run t =
        (binary (meter.expression rules fuel) left power).run t := by
      refine run_binary left power fun r hr => ?_
      have hlt := hr.length_lt
      exact h power (by omega) (by omega)
    have hpasses : Passes (binary (expression rules n) left power) t (Consumes t) :=
      (proceeds_binary (proceeds_expression rules n) left power : Proceeds _ .none _ _ _).passes
    refine hpasses.run_bind hbinary fun e r htr hr => ?_
    have hbehind : s.Behind r := ⟨htr.trans hst, hr.behind hst⟩
    have hlt := hbehind.length_lt
    rw [run_progressed hbehind]
    obtain ⟨count, rfl⟩ := Nat.exists_eq_add_one_of_ne_zero (show count ≠ 0 by omega)
    exact ih e (by omega) (by omega) (by omega) count (by omega)

theorem meteredExpr (meter : Meter) (rules : Rules) (n fuel : Nat) :
    MeteredExpr meter rules n fuel := by
  induction n generalizing fuel with
  | zero =>
    intro s floor hn hfuel
    obtain ⟨fuel, rfl⟩ := Nat.exists_eq_add_one_of_ne_zero (Nat.ne_zero_of_lt hfuel)
    have hrest : s.descend.rest = [] := List.eq_nil_of_length_eq_zero (Nat.le_zero.1 hn)
    have hoperand : Lacks "expression"
        (operandOf rules (meter.operandBy fuel (meter.expression rules fuel))) s.descend := by
      unfold Lacks operandOf
      rw [EStateM.run_bind, run_peek_of_rest_nil hrest]
      rfl
    exact run_nested _ hoperand.bind.symm
  | succ n ih =>
    intro s floor hn hfuel
    obtain ⟨fuel, rfl⟩ := Nat.exists_eq_add_one_of_ne_zero (Nat.ne_zero_of_lt hfuel)
    refine run_nested _ ?_
    have hpasses : Passes (operand rules n (expression rules n)) s.descend (Consumes s.descend) :=
      (proceeds_operand (proceeds_expression rules n) n : Proceeds _ .none _ _ _).passes
    have hoperand := run_operand_metered (ih fuel) (s := s.descend) hn (Nat.le_of_lt_succ hfuel)
    refine hpasses.run_bind hoperand fun left t hst ht => ?_
    have hlt : t.rest.length < s.rest.length := ht.length_lt hst
    exact run_operators_metered (ih fuel) floor n fuel left (by omega) (by omega) (by omega)
      (by omega)

end Expressions

section Statements

theorem run_paramList_metered (m count : Nat) (hm : s.rest.length ≤ m)
    (hcount : s.rest.length < count) :
    (paramList m).run s = (meter.list param count).run s := by
  obtain ⟨count, rfl⟩ := Nat.exists_eq_add_one_of_ne_zero (Nat.ne_zero_of_lt hcount)
  induction m generalizing s count with
  | zero =>
    have hrest : s.rest = [] := List.eq_nil_of_length_eq_zero (Nat.le_zero.1 hm)
    have hparam : Lacks "parameter name" param s := (lacks_expectNamed hrest _).bind.bind
    exact (lacks_unexpected hrest).trans hparam.bind.symm
  | succ m ih =>
    refine run_list_metered (proceeds_param : Proceeds none _ _ _ _).passes rfl fun t ht => ?_
    have hlt := ht.length_lt
    obtain ⟨count, rfl⟩ := Nat.exists_eq_add_one_of_ne_zero (show count ≠ 0 by omega)
    exact ih (by omega) count (by omega)

/-- With a bound of the tokens that are left, and with more fuel than there are, a statement runs as
without a meter. -/
def MeteredStmt (meter : Meter) (rules : Rules) (n fuel : Nat) : Prop :=
  ∀ ⦃s : State⦄, s.rest.length ≤ n → s.rest.length < fuel →
    (statement rules n).run s = (meter.statement rules fuel).run s

/-- A statement that is not in front of a closing brace takes a token, so the loop gets on. -/
theorem run_stmts_metered {ended closed loop loop' : Parser (List Stmt)}
    (h : MeteredStmt meter rules n fuel) (hn : s.rest.length ≤ n) (hfuel : s.rest.length < fuel)
    (hloop : ∀ t, s.Behind t → loop.run t = loop'.run t) :
    (stmtLoop ended closed (turn (statement rules n) loop)).run s =
      (stmtLoop ended closed
        (turn (meter.guarded s (meter.statement rules fuel)) loop')).run s := by
  refine run_stmtLoop fun t hst hopen => ?_
  have hle := hst.length_le
  unfold turn Meter.guarded
  rw [bind_assoc, run_unclosed hopen, bind_assoc]
  refine (proceeds_statement rules n t).passes.run_bind (h (by omega) (by omega)) ?_
  intro stmt? r htr hr
  unfold ConsumesUnlessClosing at hr
  rw [if_neg hopen] at hr
  have hbehind : s.Behind r := ⟨htr.trans hst, hr.behind hst⟩
  rw [bind_assoc, run_progressed hbehind, pure_bind]
  cases stmt? with
  | none => exact hloop r hbehind
  | some first => exact run_bind_congr (hloop r hbehind) _

/-- A loop that turns at most as often as there are tokens, which `blockBody` and `topLevel` are. -/
theorem run_loop_metered {ended closed : Parser (List Stmt)} {loop : Nat → Parser (List Stmt)}
    (hzero : loop 0 = ended)
    (hsucc : ∀ m, loop (m + 1) = stmtLoop ended closed (turn (statement rules n) (loop m)))
    (h : MeteredStmt meter rules n fuel) (m count : Nat) (hn : s.rest.length ≤ n)
    (hfuel : s.rest.length < fuel) (hm : s.rest.length ≤ m) (hcount : s.rest.length < count) :
    (loop m).run s =
      (meter.stmts (stmtLoop ended closed) (meter.statement rules fuel) count).run s := by
  obtain ⟨count, rfl⟩ := Nat.exists_eq_add_one_of_ne_zero (Nat.ne_zero_of_lt hcount)
  induction m generalizing s count with
  | zero =>
    have hrest : s.rest = [] := List.eq_nil_of_length_eq_zero (Nat.le_zero.1 hm)
    unfold Meter.stmts stmtLoop
    rw [run_get_bind, EStateM.run_bind, run_peekKind_of_rest_nil hrest, hzero]
  | succ m ih =>
    unfold Meter.stmts
    rw [run_get_bind, hsucc]
    refine run_stmts_metered h hn hfuel fun t ht => ?_
    have hlt := ht.length_lt
    obtain ⟨count, rfl⟩ := Nat.exists_eq_add_one_of_ne_zero (show count ≠ 0 by omega)
    exact ih (by omega) (by omega) (by omega) count (by omega)

theorem meteredStmt (meter : Meter) (rules : Rules) (n fuel : Nat) :
    MeteredStmt meter rules n fuel := by
  induction n generalizing fuel with
  | zero =>
    intro s hn hfuel
    obtain ⟨fuel, rfl⟩ := Nat.exists_eq_add_one_of_ne_zero (Nat.ne_zero_of_lt hfuel)
    have hrest : s.rest = [] := List.eq_nil_of_length_eq_zero (Nat.le_zero.1 hn)
    unfold statement Meter.statement statementOf
    rw [EStateM.run_bind, run_peek_of_rest_nil hrest]
  | succ n ih =>
    intro s hn hfuel
    obtain ⟨fuel, rfl⟩ := Nat.exists_eq_add_one_of_ne_zero (Nat.ne_zero_of_lt hfuel)
    refine run_statementOf (fun t hst => ?_) fun t hst => ?_
    · have hle := hst.length_le
      exact meteredExpr meter rules (n + 1) (fuel + 1) .lowest (by omega) (by omega)
    · have hle := hst.length_le
      refine run_functionOf (fun r => (proceeds_params (n + 1) : Proceeds none _ _ _ _).passes)
        (fun r hr => run_enclosed fun q hq => ?_) fun r hr => run_blockOf fun q hq => ?_
      all_goals
        have hlt := hr.length_lt
        have hlt' := hq.length_lt
      · exact run_paramList_metered (n + 1) (fuel + 1) (by omega) (by omega)
      · exact run_loop_metered rfl (fun _ => rfl) (ih fuel) (n + 1) (fuel + 1) (by omega)
          (by omega) (by omega) (by omega)

/-- With a bound on the tokens and more fuel than tokens, the metered parse is the parse. -/
theorem run_program_metered (hn : s.rest.length ≤ n) (hfuel : s.rest.length < fuel) :
    (program rules n).run s = (meter.program rules fuel).run s := by
  refine run_programOf fun t hst => ?_
  have hle := hst.length_le
  exact run_loop_metered rfl (fun _ => rfl) (meteredStmt meter rules n fuel) n fuel (by omega)
    (by omega) (by omega) (by omega)

end Statements

/-- The bound that recursion goes down on does not matter as long as it is large enough: one metered
parse is the parse with any such bound. -/
theorem run_program_eq (rules : Rules) (tokens : List Token) (file : String)
    (h : tokens.length ≤ n) :
    (program rules n).run { rest := tokens, file } = run rules tokens file := by
  have hmetered {m : Nat} (hm : tokens.length ≤ m) :
      (program rules m).run { rest := tokens, file } =
        Meter.run default rules (tokens.length + 1) tokens file :=
    run_program_metered hm (Nat.lt_succ_self _)
  exact (hmetered h).trans (hmetered le_rfl).symm

end Scopewise.Parse
