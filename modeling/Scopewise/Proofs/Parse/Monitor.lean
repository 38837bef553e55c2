import Scopewise.Proofs.Parse.Moves

namespace Scopewise.Parse

variable {α β : Type} {bound : Nat}

/-- The state that a run ends in, whether it succeeds or fails. -/
def ending : EStateM.Result Failure State α → State
  | .ok _ state | .error _ state => state

namespace Rules

def bounded (rules : Rules) (bound : Nat) : Rules :=
  { rules with limit := some bound }

def free (rules : Rules) : Rules :=
  { rules with limit := none }

end Rules

/-- The run failed for want of a level. -/
def TooDeep (bound : Nat) (result : EStateM.Result Failure State α) : Prop :=
  ∃ position depth state,
    result = .error ⟨⟨.nestingTooDeep bound, position⟩, depth⟩ state

/-- `p` does what `q` does until `q` opens more levels than the bound allows. -/
structure Monitors (bound : Nat) (p q : Parser α) : Prop where
  rises : ∀ s, s.peak ≤ (ending (q.run s)).peak
  agrees : ∀ s, (ending (q.run s)).peak ≤ bound → p.run s = q.run s
  stops : ∀ s, s.peak ≤ bound → bound < (ending (q.run s)).peak → TooDeep bound (p.run s)

/-- A parser that opens no level. -/
def Quiet (p : Parser α) : Prop :=
  ∀ s, Ends p s (fun _ t => t.peak = s.peak) fun _ t => t.peak = s.peak

namespace Quiet

theorem peak_ending {p : Parser α} (h : Quiet p) (s : State) :
    (ending (p.run s)).peak = s.peak := by
  have hs := h s
  unfold Ends at hs
  cases hrun : p.run s <;> rw [hrun] at hs <;> exact hs

theorem monitors {p : Parser α} (h : Quiet p) : Monitors bound p p where
  rises s := (h.peak_ending s).ge
  agrees _ _ := rfl
  stops s hs hpeak := by
    rw [h.peak_ending s] at hpeak
    omega

theorem bind {p : Parser α} {f : α → Parser β} (hp : Quiet p) (hf : ∀ a, Quiet (f a)) :
    Quiet (p >>= f) := by
  intro s
  refine ends_bind.2 (Ends.mono (hp s) ?_ fun _ _ => id)
  intro a t ht
  rw [← ht]
  exact hf a t

theorem discard {p : Parser α} {f : Unit → Parser β} (hp : Quiet p) (hf : Quiet (f ())) :
    Quiet (Functor.discard p >>= f) := by
  rw [discard_bind]
  exact hp.bind fun _ => hf

theorem pure (a : α) : Quiet (Pure.pure a) :=
  fun _ => ends_pure.2 rfl

theorem get : Quiet MonadState.get :=
  fun _ => ends_get.2 rfl

theorem failAt (fault : Fault) (position : Position) :
    Quiet (α := α) (Parse.failAt fault position) :=
  fun _ => ends_failAt.2 rfl

theorem failHere (fault : Fault) : Quiet (α := α) (Parse.failHere fault) :=
  fun _ => ends_failHere.2 rfl

theorem unexpectedToken (t : Token) : Quiet (α := α) (Parse.unexpectedToken t) :=
  failAt _ _

theorem peek : Quiet Parse.peek :=
  fun _ => ends_peek.2 rfl

theorem peekKind : Quiet Parse.peekKind :=
  fun _ => ends_peekKind.2 rfl

theorem advance : Quiet Parse.advance := by
  intro s
  apply ends_advance.2
  cases s.pending <;> rfl

theorem unexpected (expected : String) : Quiet (α := α) (Parse.unexpected expected) := by
  intro s
  apply ends_unexpected.2
  cases s.pending <;> rfl

theorem expectNamed (kind : Token.Kind) (expected : String) :
    Quiet (Parse.expectNamed kind expected) := by
  refine peekKind.bind fun k => ?_
  split
  · exact advance
  · exact unexpected expected

theorem expect (kind : Token.Kind) : Quiet (Parse.expect kind) :=
  expectNamed kind kind.describe

theorem change (c : Scope.Change) : Quiet (Parse.change c) := by
  intro s
  apply ends_change.2
  cases s.scopes.after? c <;> rfl

theorem literal : Quiet Parse.literal := by
  refine (expect .integer).bind fun t => ?_
  split
  · exact pure _
  · exact failAt _ _

theorem freshVariable (expected : String) : Quiet (Parse.freshVariable expected) := by
  refine (expectNamed _ _).bind fun t => get.bind fun s => ?_
  split
  · exact failAt _ _
  · exact pure _

theorem freshFunction : Quiet Parse.freshFunction := by
  refine (expectNamed _ _).bind fun t => get.bind fun s => ?_
  split
  · exact failAt _ _
  · exact pure _

theorem returnType : Quiet Parse.returnType := by
  refine (expectNamed _ _).bind fun t => ?_
  split
  · exact pure _
  · exact failAt _ _

theorem param : Quiet Parse.param := by
  refine (freshVariable _).bind fun name => (expect .colon).discard ?_
  have htype : Quiet paramType := (expectNamed _ _).bind fun _ => pure _
  exact htype.bind fun type => (change _).bind fun _ => pure _

end Quiet

namespace Monitors

variable {p q : Parser α}

theorem bind {f g : α → Parser β} (hp : Monitors bound p q)
    (hf : ∀ a, Monitors bound (f a) (g a)) : Monitors bound (p >>= f) (q >>= g) := by
  have hrises : ∀ s, (ending (q.run s)).peak ≤ (ending ((q >>= g).run s)).peak := by
    intro s
    rw [EStateM.run_bind]
    cases q.run s with
    | ok a t => exact (hf a).rises t
    | error e t => exact le_refl _
  constructor
  · intro s
    exact (hp.rises s).trans (hrises s)
  · intro s hpeak
    rw [EStateM.run_bind, EStateM.run_bind, hp.agrees s ((hrises s).trans hpeak)]
    rw [EStateM.run_bind] at hpeak
    cases hrun : q.run s with
    | ok a t =>
      rw [hrun] at hpeak
      exact (hf a).agrees t hpeak
    | error e t => rfl
  · intro s hs hpeak
    rw [EStateM.run_bind] at hpeak ⊢
    by_cases hfirst : (ending (q.run s)).peak ≤ bound
    · rw [hp.agrees s hfirst]
      cases hrun : q.run s with
      | ok a t =>
        rw [hrun] at hpeak hfirst
        exact (hf a).stops t hfirst hpeak
      | error e t =>
        rw [hrun] at hpeak hfirst
        exact absurd hfirst (Nat.not_le.2 hpeak)
    · obtain ⟨position, depth, t, hrun⟩ := hp.stops s hs (Nat.not_le.1 hfirst)
      rw [hrun]
      exact ⟨position, depth, t, rfl⟩

theorem after {r : Parser α} {f g : α → Parser β} (hr : Quiet r)
    (hf : ∀ a, Monitors bound (f a) (g a)) : Monitors bound (r >>= f) (r >>= g) :=
  hr.monitors.bind hf

theorem discard {r : Parser α} {f g : Unit → Parser β} (hr : Quiet r)
    (hf : Monitors bound (f ()) (g ())) :
    Monitors bound (Functor.discard r >>= f) (Functor.discard r >>= g) := by
  rw [discard_bind, discard_bind]
  exact after hr fun _ => hf

end Monitors

section Nesting

variable {p q : Parser α} {s : State}

/-- The result one level further out. -/
def lower : EStateM.Result Failure State α → EStateM.Result Failure State α
  | .ok a state => .ok a state.ascend
  | .error e state => .error e state.ascend

theorem peak_ending_lower (result : EStateM.Result Failure State α) :
    (ending (lower result)).peak = (ending result).peak := by
  cases result <;> rfl

theorem run_nested_eq (limit : Option Nat) : (nested limit p).run s =
    match (descend limit).run s with
    | .ok _ t => lower (p.run t)
    | .error e t => .error e t := by
  refine (EStateM.run_bind (descend limit) _).trans ?_
  cases (descend limit).run s <;> rfl

theorem run_nested_none : (nested none q).run s = lower (q.run s.descend) :=
  rfl

theorem run_descend_some : (descend (some bound)).run s =
    (if s.depth < bound then modify State.descend else failHere (.nestingTooDeep bound)).run s :=
  rfl

theorem run_nested_some (h : s.depth < bound) :
    (nested (some bound) p).run s = lower (p.run s.descend) := by
  rw [run_nested_eq, run_descend_some, if_pos h]
  rfl

theorem tooDeep_nested (h : bound ≤ s.depth) : TooDeep bound ((nested (some bound) p).run s) := by
  rw [run_nested_eq, run_descend_some, if_neg (Nat.not_lt.2 h)]
  exact ⟨_, _, _, rfl⟩

/-- The one place where the two can part. -/
theorem Monitors.nested (h : Monitors bound p q) :
    Monitors bound (Parse.nested (some bound) p) (Parse.nested none q) := by
  have hdescend : ∀ s : State, s.descend.peak = max s.peak (s.depth + 1) := fun _ => rfl
  have hrises : ∀ s : State,
      max s.peak (s.depth + 1) ≤ (ending ((Parse.nested none q).run s)).peak := by
    intro s
    rw [run_nested_none, peak_ending_lower, ← hdescend]
    exact h.rises s.descend
  constructor
  · intro s
    exact (le_max_left _ _).trans (hrises s)
  · intro s hpeak
    have hdepth : s.depth < bound := by
      have := hrises s
      omega
    rw [run_nested_none, peak_ending_lower] at hpeak
    rw [run_nested_none, run_nested_some hdepth, h.agrees s.descend hpeak]
  · intro s hs hpeak
    by_cases hdepth : s.depth < bound
    · rw [run_nested_none, peak_ending_lower] at hpeak
      have hs' : s.descend.peak ≤ bound := by
        rw [hdescend]
        omega
      obtain ⟨position, depth, t, hrun⟩ := h.stops s.descend hs' hpeak
      rw [run_nested_some hdepth, hrun]
      exact ⟨position, depth, t.ascend, rfl⟩
    · exact tooDeep_nested (Nat.not_lt.1 hdepth)

end Nesting

section Expressions

variable {sub sub' : Parser Expr} {subs subs' : BindingPower → Parser Expr}

theorem monitors_separated {first : α} {list list' : Parser (List α)}
    (h : Monitors bound list list') :
    Monitors bound (separated first list) (separated first list') := by
  refine .after Quiet.peekKind fun kind => ?_
  split
  · exact .discard Quiet.advance (h.bind fun _ => (Quiet.pure _).monitors)
  · exact .discard Quiet.advance (Quiet.pure _).monitors
  · exact (Quiet.unexpected _).monitors

theorem monitors_enclosed {list list' : Parser (List α)} (h : Monitors bound list list') :
    Monitors bound (enclosed list) (enclosed list') := by
  refine .discard (Quiet.expect _) (.after Quiet.peekKind fun kind => ?_)
  split
  · exact .discard Quiet.advance (Quiet.pure _).monitors
  · exact h

theorem monitors_argumentList (h : Monitors bound sub sub') (n : Nat) :
    Monitors bound (argumentList sub n) (argumentList sub' n) := by
  induction n with
  | zero =>
    unfold argumentList
    rw [discard_bind, discard_bind]
    exact h.bind fun _ => (Quiet.unexpected _).monitors
  | succ n ih => exact h.bind fun first => monitors_separated ih

theorem monitors_arguments (h : Monitors bound sub sub') (n : Nat) :
    Monitors bound (arguments n sub) (arguments n sub') :=
  monitors_enclosed (monitors_argumentList h n)

theorem monitors_reference (h : Monitors bound sub sub') (n : Nat) :
    Monitors bound (reference n sub) (reference n sub') := by
  refine .after (Quiet.expect _) fun t => .after Quiet.peekKind fun kind => ?_
  split
  · refine .after Quiet.get fun s => ?_
    split
    · exact (monitors_arguments h n).bind fun _ => (Quiet.pure _).monitors
    · exact (Quiet.failAt _ _).monitors
  · refine .after Quiet.get fun s => ?_
    split
    · exact (Quiet.pure _).monitors
    · exact (Quiet.failAt _ _).monitors

theorem monitors_signed (h : ∀ power, Monitors bound (subs power) (subs' power)) :
    Monitors bound (signed subs) (signed subs') := by
  refine .after Quiet.advance fun t => ?_
  split
  · exact (h .unary).bind fun _ => (Quiet.pure _).monitors
  · exact (Quiet.unexpectedToken _).monitors

theorem monitors_group (h : Monitors bound sub sub') :
    Monitors bound (group sub) (group sub') := by
  refine .discard (Quiet.expect _) (h.bind fun e => ?_)
  exact .discard (Quiet.expect _) (Quiet.pure _).monitors

theorem monitors_operand (rules : Rules) (h : ∀ power, Monitors bound (subs power) (subs' power))
    (n : Nat) :
    Monitors bound (operand (rules.bounded bound) n subs) (operand rules.free n subs') := by
  refine .after Quiet.peek fun o => ?_
  split
  · exact (Quiet.failHere _).monitors
  · next t =>
    have htable : (rules.bounded bound).operand? = rules.free.operand? := rfl
    rw [htable]
    cases rules.free.operand? t.kind with
    | none => exact (Quiet.unexpectedToken _).monitors
    | some rule =>
      cases rule with
      | literal => exact Quiet.literal.monitors
      | name => exact monitors_reference (h .lowest) n
      | sign => exact monitors_signed h
      | group => exact monitors_group (h .lowest)

theorem monitors_binary (h : ∀ power, Monitors bound (subs power) (subs' power)) (left : Expr)
    (power : BindingPower) : Monitors bound (binary subs left power) (binary subs' left power) := by
  refine .after Quiet.advance fun t => ?_
  split
  · exact (h power).bind fun _ => (Quiet.pure _).monitors
  · exact (Quiet.unexpectedToken _).monitors

theorem monitors_operators (rules : Rules)
    (h : ∀ power, Monitors bound (subs power) (subs' power)) (floor : BindingPower) (n : Nat)
    (left : Expr) :
    Monitors bound (operators (rules.bounded bound) subs floor n left)
      (operators rules.free subs' floor n left) := by
  induction n generalizing left with
  | zero => exact (Quiet.pure _).monitors
  | succ n ih =>
    refine .after Quiet.peekKind fun kind => ?_
    have htable : (rules.bounded bound).power? = rules.free.power? := rfl
    rw [htable]
    cases kind.bind rules.free.power? with
    | none => exact (Quiet.pure _).monitors
    | some power =>
      change Monitors bound (if power ≤ floor then _ else _) (if power ≤ floor then _ else _)
      split
      · exact (Quiet.pure _).monitors
      · exact (monitors_binary h left power).bind fun e => ih e

theorem monitors_expression (rules : Rules) (n : Nat) (floor : BindingPower) :
    Monitors bound (expression (rules.bounded bound) n floor) (expression rules.free n floor) := by
  induction n generalizing floor with
  | zero => exact (Quiet.failHere _).monitors.nested
  | succ n ih =>
    refine ((monitors_operand rules ih n).bind fun left => ?_).nested
    exact monitors_operators rules ih floor n left

end Expressions

section Statements

variable {stmt stmt' : Parser (Option Stmt)}

theorem monitors_binding {value value' : Parser Expr} (h : Monitors bound value value') :
    Monitors bound (binding value) (binding value') := by
  refine .after Quiet.advance fun lead => .after (Quiet.freshVariable _) fun name => ?_
  refine .discard (Quiet.expect _) (h.bind fun value => ?_)
  refine .discard (Quiet.expect _) ?_
  exact .after (Quiet.change _) fun _ => (Quiet.pure _).monitors

theorem monitors_returning {value value' : Parser Expr} (h : Monitors bound value value') :
    Monitors bound (returning value) (returning value') := by
  refine .discard Quiet.advance (h.bind fun value => ?_)
  exact .discard (Quiet.expect _) (Quiet.pure _).monitors

theorem monitors_turn {loop loop' : Parser (List Stmt)} (h : Monitors bound stmt stmt')
    (hloop : Monitors bound loop loop') : Monitors bound (turn stmt loop) (turn stmt' loop') := by
  refine h.bind fun stmt? => ?_
  cases stmt? with
  | none => exact hloop
  | some first => exact hloop.bind fun _ => (Quiet.pure _).monitors

theorem monitors_stmtLoop {ended closed more more' : Parser (List Stmt)} (hended : Quiet ended)
    (hclosed : Quiet closed) (h : Monitors bound more more') :
    Monitors bound (stmtLoop ended closed more) (stmtLoop ended closed more') := by
  refine .after Quiet.peekKind fun kind => ?_
  split
  · exact hended.monitors
  · exact hclosed.monitors
  · exact h

theorem monitors_blockBody (h : Monitors bound stmt stmt') (n : Nat) :
    Monitors bound (blockBody stmt n) (blockBody stmt' n) := by
  induction n with
  | zero => exact (Quiet.unexpected _).monitors
  | succ n ih => exact monitors_stmtLoop (Quiet.unexpected _) (Quiet.pure _) (monitors_turn h ih)

theorem monitors_block (h : Monitors bound stmt stmt') (n : Nat) :
    Monitors bound (block (some bound) n stmt) (block none n stmt') := by
  refine .discard (Quiet.expect _) ((monitors_blockBody h n).nested.bind fun body => ?_)
  exact .discard (Quiet.expect _) (Quiet.pure _).monitors

theorem monitors_params (n : Nat) : Monitors bound (params n) (params n) := by
  have hlist : Monitors bound (paramList n) (paramList n) := by
    induction n with
    | zero => exact (Quiet.unexpected _).monitors
    | succ n ih => exact .after Quiet.param fun first => monitors_separated ih
  exact monitors_enclosed hlist

theorem monitors_function {body body' : Parser (List Stmt)} (h : Monitors bound body body')
    (n : Nat) : Monitors bound (function n body) (function n body') := by
  refine .discard Quiet.advance (.after Quiet.freshFunction fun name => ?_)
  refine .after (Quiet.change _) fun _ => .after (Quiet.change _) fun _ => ?_
  refine (monitors_params n).bind fun params => .discard (Quiet.expect _) ?_
  refine .after Quiet.returnType fun type => h.bind fun body => ?_
  refine .discard (Quiet.expect _) ?_
  exact .after (Quiet.change _) fun _ => (Quiet.pure _).monitors

theorem monitors_statement (rules : Rules) (n : Nat) :
    Monitors bound (statement (rules.bounded bound) n) (statement rules.free n) := by
  induction n with
  | zero => exact (Quiet.failHere _).monitors
  | succ n ih =>
    refine .after Quiet.peek fun o => ?_
    split
    · exact (Quiet.failHere _).monitors
    · next t =>
      split
      · exact (Quiet.pure _).monitors
      · exact .discard Quiet.advance (Quiet.pure _).monitors
      · have htable : (rules.bounded bound).stmt? = rules.free.stmt? := rfl
        rw [htable]
        cases rules.free.stmt? t.value with
        | some rule =>
          have hrule : Monitors bound
              (rule.parse (rules.bounded bound) (n + 1) (statement (rules.bounded bound) n))
              (rule.parse rules.free (n + 1) (statement rules.free n)) := by
            cases rule with
            | function => exact monitors_function (monitors_block ih _) _
            | binding => exact monitors_binding (monitors_expression rules _ _)
            | returning => exact monitors_returning (monitors_expression rules _ _)
          exact hrule.bind fun _ => (Quiet.pure _).monitors
        | none => exact (monitors_expression rules _ _).bind fun _ => (Quiet.pure _).monitors
      · exact (Quiet.unexpectedToken _).monitors

theorem monitors_topLevel (h : Monitors bound stmt stmt') (n : Nat) :
    Monitors bound (topLevel stmt n) (topLevel stmt' n) := by
  induction n with
  | zero => exact (Quiet.pure _).monitors
  | succ n ih => exact monitors_stmtLoop (Quiet.pure _) (Quiet.failHere _) (monitors_turn h ih)

theorem monitors_program (rules : Rules) (n : Nat) :
    Monitors bound (program (rules.bounded bound) n) (program rules.free n) := by
  refine .after (Quiet.change _) fun _ => ?_
  have hnames : Quiet (builtins.forM fun name => change (.function name)) :=
    (Quiet.change _).bind fun _ => Quiet.pure _
  refine .after hnames fun _ => ?_
  refine (monitors_topLevel (monitors_statement rules n) n).bind fun body => ?_
  refine .after (Quiet.change _) fun _ => ?_
  have hend : Quiet (do
      modify fun state : State => { state with journal := state.journal.push (.parsed body.length) }
      return body : Parser (List Stmt)) :=
    fun _ => ends_bind.2 (ends_modify.2 rfl)
  exact hend.monitors

end Statements

end Scopewise.Parse
