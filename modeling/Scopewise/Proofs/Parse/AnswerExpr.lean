import Scopewise.Proofs.Parse.Moves
import Scopewise.Proofs.Violation

namespace Scopewise.Parse

open Grammar Scope

/-- The parse stands before the tokens `ahead`. -/
structure State.At (s : State) (ahead : List Token) (table : Table) (depth : Nat) : Prop where
  pending : s.pending = ahead
  scopes : s.scopes = table
  depth : s.depth = depth

namespace State.At

variable {s : State} {t : Token} {ts : List Token} {table : Table} {depth : Nat}

theorem skip (h : s.At ts table depth) : s.skipNewlines.At ts table depth :=
  ⟨by rw [pending_skipNewlines, h.pending], h.scopes, h.depth⟩

theorem next (h : s.At (t :: ts) table depth) : s.next.At ts table depth :=
  ⟨by rw [pending_next, h.pending, List.tail_cons], h.scopes, h.depth⟩

theorem descend (h : s.At ts table depth) : s.descend.At ts table (depth + 1) :=
  ⟨h.pending, h.scopes, congrArg (· + 1) h.depth⟩

theorem ascend (h : s.At ts table (depth + 1)) : s.ascend.At ts table depth :=
  ⟨h.pending, h.scopes, congrArg (· - 1) h.depth⟩

theorem peek (h : s.At ts table depth) :
    Ends Parse.peek s (fun a r => a = ts.head? ∧ r.At ts table depth) fun _ _ => False :=
  ends_peek.2 ⟨by rw [h.pending], h.skip⟩

theorem peekKind (h : s.At ts table depth) :
    Ends Parse.peekKind s (fun a r => a = ts.head?.map (·.kind) ∧ r.At ts table depth)
      fun _ _ => False :=
  ends_peekKind.2 ⟨by rw [h.pending], h.skip⟩

theorem advance (h : s.At (t :: ts) table depth) :
    Ends Parse.advance s (fun a r => a = t ∧ r.At ts table depth) fun _ _ => False := by
  rw [ends_advance, h.pending]
  exact ⟨rfl, h.next⟩

theorem expectNamed {kind : Token.Kind} {expected : String} (h : s.At (t :: ts) table depth)
    (ht : t.kind = kind) :
    Ends (Parse.expectNamed kind expected) s (fun a r => a = t ∧ r.At ts table depth)
      fun _ _ => False := by
  rw [ends_expectNamed, h.pending]
  change if t.kind = kind then _ else _
  rw [if_pos ht]
  exact ⟨rfl, h.next⟩

theorem expect {kind : Token.Kind} (h : s.At (t :: ts) table depth) (ht : t.kind = kind) :
    Ends (Parse.expect kind) s (fun a r => a = t ∧ r.At ts table depth) fun _ _ => False :=
  h.expectNamed ht

end State.At

variable {α β γ : Type} {token : α → Token} {found found' : List (Violation α)} {s : State}

/-- `p` reports the first violation found; if there is none, it ends in `good`. -/
def Answers (token : α → Token) (found : List (Violation α)) (p : Parser β) (s : State)
    (good : β → State → Prop) : Prop :=
  Ends p s (fun b t => found = [] ∧ good b t) fun e _ =>
    found.head?.map (·.diagnostic token) = some e.diagnostic

namespace Answers

variable {p : Parser β} {f : β → Parser γ} {mid : β → State → Prop} {good : γ → State → Prop}

theorem mono {mid' : β → State → Prop} (h : Answers token found p s mid)
    (hmid : ∀ b t, mid b t → mid' b t) : Answers token found p s mid' :=
  Ends.mono h (fun b t hb => ⟨hb.1, hmid b t hb.2⟩) fun _ _ => id

theorem bind (hp : Answers token found p s mid)
    (hf : ∀ b t, mid b t → Answers token found' (f b) t good) :
    Answers token (found ++ found') (p >>= f) s good := by
  refine ends_bind.2 (Ends.mono hp ?_ ?_)
  · rintro b t ⟨rfl, hb⟩
    exact hf b t hb
  · intro e t he
    cases found with
    | nil => simp at he
    | cons v vs => exact he

theorem finish (hp : Answers token found p s mid)
    (hf : ∀ b t, mid b t → Answers token [] (f b) t good) :
    Answers token found (p >>= f) s good := by
  have h := bind hp hf
  rwa [List.append_nil] at h

/-- A move that cannot fail comes before what is answered. -/
theorem after (hp : Ends p s mid fun _ _ => False)
    (hf : ∀ b t, mid b t → Answers token found (f b) t good) :
    Answers token found (p >>= f) s good :=
  ends_bind.2 (Ends.mono hp hf fun _ _ => False.elim)

theorem after_discard {f : Unit → Parser γ} (hp : Ends p s mid fun _ _ => False)
    (hf : ∀ b t, mid b t → Answers token found (f ()) t good) :
    Answers token found (discard p >>= f) s good :=
  ends_bind.2 (ends_discard.2 (Ends.mono hp hf fun _ _ => False.elim))

theorem pure {b : β} (h : mid b s) : Answers token [] (Pure.pure b) s mid :=
  ends_pure.2 ⟨rfl, h⟩

/-- A check that reports at a token, in front of what happens if it passes. -/
theorem ensure {spot : α} {fault : String → Fault} {valid : Bool} {p : Parser β}
    (h : valid = true → Answers token found p s mid) :
    Answers token (ensure token valid spot fault ++ found)
      (if valid = true then p
        else failAt (fault (token spot).value) (token spot).position) s mid := by
  cases valid with
  | true => exact h rfl
  | false => exact ends_failAt.2 rfl

end Answers

/-- No token of `rest` continues an expression that takes in operators above `floor`. -/
def Stops (floor : BindingPower) (rest : List Token) : Prop :=
  ∀ t ∈ rest.head?, t.kind ≠ .openParen ∧
    ∀ power, Rules.standard.power? t.kind = some power → power ≤ floor

theorem Stops.of_kind {floor : BindingPower} {kind : Token.Kind} {t : Token} {rest : List Token}
    (ht : t.kind = kind) (hparen : kind ≠ .openParen)
    (hpower : Rules.standard.power? kind = none) : Stops floor (t :: rest) := by
  intro u hu
  obtain rfl : t = u := by simpa using hu
  rw [ht]
  exact ⟨hparen, fun power h => by rw [hpower] at h; cases h⟩

theorem Stops.mono {floor floor' : BindingPower} {rest : List Token} (h : Stops floor rest)
    (hle : floor.rank ≤ floor'.rank) : Stops floor' rest :=
  fun t ht => ⟨(h t ht).1, fun power hp => Nat.le_trans ((h t ht).2 power hp) hle⟩

end Scopewise.Parse

namespace Scopewise.Grammar

open Parse (BindingPower Rules)

namespace Level

/-- Whether an expression of the level has only operators above `floor`. -/
def admits : Level → BindingPower → Prop
  | .sum, floor => floor.rank < BindingPower.additive.rank
  | .term, floor => floor.rank < BindingPower.multiplicative.rank
  | .unary, _ | .primary, _ => True

/-- How tightly an operator binds that may follow an expression of the level. -/
def power : Level → BindingPower
  | .sum => .additive
  | .term => .multiplicative
  | .unary | .primary => .unary

theorem admits_next {level : Level} {floor : BindingPower} (h : level.admits floor) :
    level.next.admits floor := by
  cases level with
  | sum => exact Nat.lt_trans h (by decide)
  | term | unary | primary => trivial

theorem rank_power_le_next (level : Level) : level.power.rank ≤ level.next.power.rank := by
  cases level <;> decide

theorem rank_le_of_admits {level : Level} {floor : BindingPower} (h : level.admits floor) :
    floor.rank ≤ level.power.rank := by
  cases level with
  | sum | term => exact Nat.le_of_lt h
  | unary | primary => cases floor <;> decide

theorem admits_lowest (level : Level) : level.admits .lowest := by
  cases level with
  | sum | term => exact Nat.zero_lt_succ _
  | unary | primary => trivial

/-- What stands right of an operator takes in only operators that bind more tightly. -/
theorem next_admits_power (level : Level) : level.next.admits level.power := by
  cases level with
  | sum => exact Nat.lt_succ_self _
  | term | unary | primary => trivial

end Level

theorem power?_kind (op : BinaryOp) : Rules.standard.power? op.kind = some op.level.power := by
  cases op <;> rfl

theorem not_power_le_of_admits {op : BinaryOp} {floor : BindingPower}
    (h : op.level.admits floor) : ¬op.level.power ≤ floor := by
  apply Nat.not_le.2
  cases op <;> exact h

variable {α : Type} {token : α → Token}

mutual

/-- An expression is not empty, and does not begin with what closes a list of arguments. -/
theorem Derives.exists_cons {level : Level} {us : List α} {e : Phrase α} {n : Nat} :
    Derives token level us e n → ∃ t ts, us = t :: ts ∧ (token t).kind ≠ .closeParen
  | .integer ht => ⟨_, _, rfl, by rw [ht]; decide⟩
  | .variable ht => ⟨_, _, rfl, by rw [ht]; decide⟩
  | .callNil ht _ _ => ⟨_, _, rfl, by rw [ht]; decide⟩
  | .call ht _ _ => ⟨_, _, rfl, by rw [ht]; decide⟩
  | .group hl _ _ => ⟨_, _, rfl, by rw [hl]; decide⟩
  | .sign ht _ => ⟨_, _, rfl, by rw [ht]; exact PrefixOp.kind_ne_closeParen _⟩
  | .lift h => h.exists_cons
  | .binary _ hl _ _ => by
    obtain ⟨t, ts, rfl, ht⟩ := hl.exists_cons
    exact ⟨t, _, rfl, ht⟩

theorem Arguments.exists_cons {us : List α} {es : List (Phrase α)} {n : Nat} :
    Arguments token us es n → ∃ t ts, us = t :: ts ∧ (token t).kind ≠ .closeParen
  | .last he _ => by
    obtain ⟨t, ts, rfl, ht⟩ := he.exists_cons
    exact ⟨t, _, rfl, ht⟩
  | .cons he _ _ => by
    obtain ⟨t, ts, rfl, ht⟩ := he.exists_cons
    exact ⟨t, _, rfl, ht⟩

end

theorem Derives.length_pos {level : Level} {us : List α} {e : Phrase α} {n : Nat}
    (h : Derives token level us e n) : 0 < us.length := by
  obtain ⟨t, ts, rfl, -⟩ := h.exists_cons
  exact Nat.zero_lt_succ _

end Scopewise.Grammar

namespace Scopewise.Parse

open Grammar Scope

variable {α : Type} {token : α → Token}

/-- The part of an expression inside its level of nesting. -/
def content (fuel : Nat) (floor : BindingPower) : Parser Expr := do
  let left ← operand .standard fuel (expression .standard fuel)
  operators .standard (expression .standard fuel) floor fuel left

theorem expression_succ (fuel : Nat) (floor : BindingPower) :
    expression .standard (fuel + 1) floor =
      nested (some Rules.maxNesting) (content fuel floor) :=
  rfl

/-- The parse stands before `us` and then `rest`, with the names of `chain` in force and enough fuel
for the tokens ahead. -/
structure Ready (token : α → Token) (s : State) (us : List α) (rest : List Token) (table : Table)
    (chain : Chain) (depth fuel : Nat) : Prop where
  here : s.At (us.map token ++ rest) table depth
  follows : Follows table.scopes chain
  enough : us.length + rest.length ≤ fuel

variable {us vs : List α} {e l r : Phrase α} {n m : Nat} {level : Level}

/-- A run of `p` from the front of `us` answers for `e`. -/
def Reads (token : α → Token) (us : List α) (e : Phrase α) (n : Nat) (floor : BindingPower) :
    Prop :=
  ∀ ⦃s : State⦄ ⦃rest : List Token⦄ ⦃table : Table⦄ ⦃chain : Chain⦄ ⦃depth fuel : Nat⦄,
    Ready token s us rest table chain depth fuel → Stops floor rest →
    depth + n < Rules.maxNesting →
    Answers token (e.violations token chain) (expression .standard fuel floor) s
      fun tree t => e.tree? token = some tree ∧ t.At rest table depth

def ReadsOperand (token : α → Token) (us : List α) (e : Phrase α) (n : Nat) : Prop :=
  ∀ ⦃s : State⦄ ⦃rest : List Token⦄ ⦃table : Table⦄ ⦃chain : Chain⦄ ⦃depth fuel : Nat⦄,
    Ready token s us rest table chain depth (fuel + 1) → Stops .unary rest →
    depth + n ≤ Rules.maxNesting →
    Answers token (e.violations token chain) (operand .standard fuel (expression .standard fuel)) s
      fun tree t => e.tree? token = some tree ∧ t.At rest table depth

def ReadsArguments (token : α → Token) (us : List α) (es : List (Phrase α)) (n : Nat) : Prop :=
  ∀ ⦃s : State⦄ ⦃rest : List Token⦄ ⦃table : Table⦄ ⦃chain : Chain⦄ ⦃depth fuel m : Nat⦄,
    Ready token s us rest table chain depth fuel → us.length + rest.length ≤ m →
    depth + n ≤ Rules.maxNesting →
    Answers token (Phrase.violationsAll token chain es)
      (argumentList (expression .standard fuel .lowest) m) s
      fun trees t => Phrase.trees? token es = some trees ∧ t.At rest table depth

/-- Reading `e` leads to the loop over the operators behind it, with the tree of `e` as what was
read so far. -/
def Continues (token : α → Token) (level : Level) (us : List α) (e : Phrase α) (n : Nat) : Prop :=
  ∀ ⦃s : State⦄ ⦃rest : List Token⦄ ⦃table : Table⦄ ⦃chain : Chain⦄ ⦃depth fuel : Nat⦄
    ⦃floor : BindingPower⦄ ⦃found : List (Violation α)⦄ ⦃good : Expr → State → Prop⦄,
    Ready token s us rest table chain depth (fuel + 1) → level.admits floor →
    Stops level.power rest → depth + n ≤ Rules.maxNesting →
    (∀ tree t m, e.tree? token = some tree → t.At rest table depth → rest.length ≤ m →
      Answers token found (operators .standard (expression .standard fuel) floor m tree) t good) →
    Answers token (e.violations token chain ++ found) (content fuel floor) s good

theorem ReadsOperand.continues (h : ReadsOperand token us e n) (hpos : 0 < us.length) :
    Continues token level us e n := by
  intro s rest table chain depth fuel floor found good hready _ hstops hdepth hloop
  have hrank : level.power.rank ≤ BindingPower.unary.rank := by cases level <;> decide
  have hrest : rest.length ≤ fuel := by have := hready.enough; omega
  apply Answers.bind (h hready (hstops.mono hrank) hdepth)
  rintro tree t ⟨htree, ht⟩
  exact hloop tree t fuel htree ht hrest

/-- The loop ends where no operator above `floor` follows. -/
theorem answers_operators_of_stops {s : State} {rest : List Token} {table : Table} {depth : Nat}
    {floor : BindingPower} {sub : BindingPower → Parser Expr} {m : Nat} {tree : Expr}
    (h : s.At rest table depth) (hstops : Stops floor rest) :
    Answers token [] (operators .standard sub floor m tree) s
      fun result t => result = tree ∧ t.At rest table depth := by
  cases m with
  | zero => exact Answers.pure ⟨rfl, h⟩
  | succ m =>
    unfold operators climb
    apply Answers.after h.peekKind
    rintro _ t ⟨rfl, ht⟩
    cases hpower : (rest.head?.map (·.kind)).bind Rules.standard.power? with
    | none => exact Answers.pure ⟨rfl, ht⟩
    | some power =>
      -- what binds no more tightly than `floor` is left to an outer loop
      obtain ⟨kind, hkind, hpower'⟩ := Option.bind_eq_some_iff.1 hpower
      obtain ⟨u, hu, rfl⟩ := Option.map_eq_some_iff.1 hkind
      have hle : power ≤ floor := (hstops u hu).2 power hpower'
      change Answers token [] (if power ≤ floor then _ else _) t _
      rw [if_pos hle]
      exact Answers.pure ⟨rfl, ht⟩

theorem Continues.reads (h : Continues token level us e n) (hpos : 0 < us.length)
    {floor : BindingPower} (hadmits : level.admits floor) : Reads token us e n floor := by
  intro s rest table chain depth fuel hready hstops hdepth
  obtain ⟨fuel, rfl⟩ : ∃ k, fuel = k + 1 :=
    ⟨fuel - 1, by have := hready.enough; omega⟩
  have hcontent : Answers token (e.violations token chain ++ []) (content fuel floor) s.descend
      fun tree t => e.tree? token = some tree ∧ t.At rest table (depth + 1) := by
    refine h ⟨hready.here.descend, hready.follows, hready.enough⟩ hadmits
      (hstops.mono (Level.rank_le_of_admits hadmits)) (by omega) ?_
    intro tree t m htree ht _
    apply (answers_operators_of_stops ht hstops).mono
    rintro _ u ⟨rfl, hu⟩
    exact ⟨htree, hu⟩
  rw [List.append_nil] at hcontent
  rw [expression_succ]
  apply ends_nested.2
  rw [if_pos (by rw [hready.here.depth]; omega)]
  refine Ends.mono hcontent ?_ fun _ _ => id
  rintro tree t ⟨hfound, htree, ht⟩
  exact ⟨hfound, htree, ht.ascend⟩

/-- An operator and its right operand are one more turn of the loop. -/
theorem Continues.binary {op : BinaryOp} {t : α} (hop : op.level = level)
    (hl : Continues token level us l n) (ht : (token t).kind = op.kind)
    (hr : Continues token level.next vs r m) (hvs : 0 < vs.length) :
    Continues token level (us ++ t :: vs) (.binary op l r) (max n (m + 1)) := by
  subst hop
  intro s rest table chain depth fuel floor found good hready hadmits hstops hdepth hloop
  have henough := hready.enough
  rw [List.length_append, List.length_cons] at henough
  have hhere : s.At (us.map token ++ (token t :: (vs.map token ++ rest))) table depth := by
    have h := hready.here
    rwa [List.map_append, List.map_cons, List.append_assoc, List.cons_append] at h
  -- the left operand stops before the operator, so its loop has this turn ahead of it
  have hstops' : Stops op.level.power (token t :: (vs.map token ++ rest)) := by
    intro u hu
    obtain rfl : token t = u := by simpa using hu
    refine ⟨by rw [ht]; cases op <;> decide, fun power hp => ?_⟩
    rw [ht, power?_kind] at hp
    exact Nat.le_of_eq (congrArg _ (Option.some.inj hp)).symm
  rw [Phrase.violations, List.append_assoc]
  refine hl ⟨hhere, hready.follows, ?_⟩ hadmits hstops' (by omega) ?_
  · simp only [List.length_cons, List.length_append, List.length_map]
    omega
  intro left u k hleft hu hk
  obtain ⟨k, rfl⟩ : ∃ j, k = j + 1 :=
    ⟨k - 1, by simp only [List.length_cons] at hk; omega⟩
  unfold operators climb
  apply Answers.after hu.peekKind
  rintro _ u ⟨rfl, hu⟩
  simp only [List.head?_cons, Option.map_some, Option.bind_some, ht, power?_kind,
    if_neg (not_power_le_of_admits hadmits)]
  unfold Parse.binary Parse.binaryOr
  rw [bind_assoc]
  apply Answers.after hu.advance
  rintro _ u ⟨rfl, hu⟩
  simp only [ht, BinaryOp.ofKind?_kind, bind_assoc, pure_bind]
  have hready' : Ready token u vs rest table chain depth fuel := by
    refine ⟨hu, hready.follows, ?_⟩
    omega
  -- the right operand is one level tighter: what has the same level as `op` stays with the loop
  apply Answers.bind (hr.reads hvs (Level.next_admits_power _) hready' hstops (by omega))
  rintro right u ⟨hright, hu⟩
  apply hloop _ u k _ hu
  · simp only [List.length_cons, List.length_append, List.length_map] at hk
    omega
  · simp [Phrase.tree?, hleft, hright]

theorem answers_operand {s : State} {t : Token} {ts : List Token} {table : Table} {depth fuel : Nat}
    {sub : BindingPower → Parser Expr} {found : List (Violation α)} {good : Expr → State → Prop}
    (rule : OperandRule) (h : s.At (t :: ts) table depth)
    (hrule : Rules.standard.operand? t.kind = some rule)
    (hparse : ∀ u : State, u.At (t :: ts) table depth →
      Answers token found (rule.parse fuel sub) u good) :
    Answers token found (operand .standard fuel sub) s good := by
  unfold operand operandOf
  apply Answers.after h.peek
  rintro _ u ⟨rfl, hu⟩
  simp only [List.head?_cons, hrule]
  exact hparse u hu

theorem readsOperand_integer {t : α} (ht : (token t).kind = .integer) :
    ReadsOperand token [t] (.integer t) 0 := by
  intro s rest table chain depth fuel hready _ _
  have hhere : s.At (token t :: rest) table depth := hready.here
  refine answers_operand .literal hhere (by rw [ht]; rfl) fun u hu => ?_
  change Answers token _ literal u _
  unfold literal
  apply Answers.after (hu.expect ht)
  rintro _ u ⟨rfl, hu⟩
  rw [Phrase.violations]
  cases hvalue : Text.readInt64? (token t).value with
  | none => exact ends_failAt.2 rfl
  | some value => exact Answers.pure ⟨by simp [Phrase.tree?, hvalue], hu⟩

theorem readsOperand_variable {t : α} (ht : (token t).kind = .identifier) :
    ReadsOperand token [t] (.variable t) 0 := by
  intro s rest table chain depth fuel hready hstops _
  have hhere : s.At (token t :: rest) table depth := hready.here
  have hparen : rest.head?.map (·.kind) ≠ some .openParen := by
    intro h
    obtain ⟨v, hv, hk⟩ := Option.map_eq_some_iff.1 h
    exact (hstops v hv).1 hk
  refine answers_operand .name hhere (by rw [ht]; rfl) fun u hu => ?_
  change Answers token _ (reference fuel _) u _
  unfold reference referenceOf
  apply Answers.after (hu.expect ht)
  rintro _ u ⟨rfl, hu⟩
  apply Answers.after hu.peekKind
  rintro _ u ⟨rfl, hu⟩
  rw [if_neg hparen]
  refine ends_bind.2 (ends_get.2 ?_)
  rw [hu.scopes, hready.follows.hasVariable, Phrase.violations, ← List.append_nil (ensure ..)]
  exact Answers.ensure fun _ => Answers.pure ⟨rfl, hu⟩

/-- A call checks its name before it reads its arguments. -/
theorem answers_reference_call {t l : α} {us : List α} {args : List (Phrase α)} {s : State}
    {rest : List Token} {table : Table} {chain : Chain} {depth fuel : Nat}
    (hready : Ready token s (t :: l :: us) rest table chain depth (fuel + 1))
    (ht : (token t).kind = .identifier) (hl : (token l).kind = .openParen)
    (hargs : ∀ u : State, u.At (token l :: (us.map token ++ rest)) table depth →
      Answers token (Phrase.violationsAll token chain args)
        (arguments fuel (expression .standard fuel .lowest)) u
        fun trees t => Phrase.trees? token args = some trees ∧ t.At rest table depth) :
    Answers token ((Phrase.call t args).violations token chain)
      (operand .standard fuel (expression .standard fuel)) s
      fun tree u => (Phrase.call t args).tree? token = some tree ∧ u.At rest table depth := by
  have hhere : s.At (token t :: token l :: (us.map token ++ rest)) table depth := hready.here
  refine answers_operand .name hhere (by rw [ht]; rfl) fun u hu => ?_
  change Answers token _ (reference fuel _) u _
  unfold reference referenceOf
  apply Answers.after (hu.expect ht)
  rintro _ u ⟨rfl, hu⟩
  apply Answers.after hu.peekKind
  rintro _ u ⟨rfl, hu⟩
  rw [List.head?_cons, Option.map_some, hl, if_pos rfl]
  refine ends_bind.2 (ends_get.2 ?_)
  rw [hu.scopes, hready.follows.hasFunction, Phrase.violations]
  refine Answers.ensure fun _ => Answers.finish (hargs u hu) ?_
  rintro trees u ⟨htrees, hu⟩
  exact Answers.pure ⟨by simp [Phrase.tree?, htrees], hu⟩

theorem readsOperand_callNil {t l r : α} (ht : (token t).kind = .identifier)
    (hl : (token l).kind = .openParen) (hr : (token r).kind = .closeParen) :
    ReadsOperand token [t, l, r] (.call t []) 0 := by
  intro s rest table chain depth fuel hready _ _
  refine answers_reference_call hready ht hl fun u hu => ?_
  change u.At (token l :: token r :: rest) table depth at hu
  unfold arguments enclosed
  apply Answers.after_discard (hu.expect hl)
  rintro _ u ⟨-, hu⟩
  apply Answers.after hu.peekKind
  rintro _ u ⟨rfl, hu⟩
  rw [List.head?_cons, Option.map_some, hr, if_pos rfl]
  apply Answers.after_discard hu.advance
  rintro _ u ⟨-, hu⟩
  exact Answers.pure ⟨rfl, hu⟩

theorem ReadsArguments.call {t l : α} {args : List (Phrase α)} (h : ReadsArguments token us args n)
    (ht : (token t).kind = .identifier) (hl : (token l).kind = .openParen)
    (hus : ∃ v vs, us = v :: vs ∧ (token v).kind ≠ .closeParen) :
    ReadsOperand token (t :: l :: us) (.call t args) n := by
  intro s rest table chain depth fuel hready _ hdepth
  have henough := hready.enough
  simp only [List.length_cons] at henough
  refine answers_reference_call hready ht hl fun u hu => ?_
  unfold arguments enclosed
  apply Answers.after_discard (hu.expect hl)
  rintro _ u ⟨-, hu⟩
  apply Answers.after hu.peekKind
  rintro _ u ⟨rfl, hu⟩
  obtain ⟨v, vs, rfl, hv⟩ := hus
  rw [List.map_cons, List.cons_append, List.head?_cons, Option.map_some,
    if_neg (by simpa using hv)]
  exact h ⟨hu, hready.follows, by omega⟩ (by omega) hdepth

/-- The parentheses of a group open no call and end no loop: what is inside is read on its own. -/
theorem Continues.group {l r : α} (hl : (token l).kind = .openParen)
    (he : Continues token .sum us e n) (hpos : 0 < us.length)
    (hr : (token r).kind = .closeParen) :
    ReadsOperand token (l :: us ++ [r]) e (n + 1) := by
  intro s rest table chain depth fuel hready _ hdepth
  have henough := hready.enough
  simp only [List.length_append, List.length_cons, List.length_nil] at henough
  have hhere : s.At (token l :: (us.map token ++ (token r :: rest))) table depth := by
    simpa using hready.here
  have hstops : Stops .lowest (token r :: rest) :=
    Stops.of_kind hr (by decide) rfl
  refine answers_operand .group hhere (by rw [hl]; rfl) fun u hu => ?_
  change Answers token _ (Parse.group _) u _
  unfold Parse.group
  apply Answers.after_discard (hu.expect hl)
  rintro _ u ⟨-, hu⟩
  have hready' : Ready token u us (token r :: rest) table chain depth fuel :=
    ⟨hu, hready.follows, by simp only [List.length_cons]; omega⟩
  apply Answers.finish (he.reads hpos (Level.admits_lowest _) hready' hstops (by omega))
  rintro tree u ⟨htree, hu⟩
  apply Answers.after_discard (hu.expect hr)
  rintro _ u ⟨-, hu⟩
  exact Answers.pure ⟨htree, hu⟩

theorem Continues.sign {t : α} {op : PrefixOp} (ht : (token t).kind = op.kind)
    (he : Continues token .unary us e n) (hpos : 0 < us.length) :
    ReadsOperand token (t :: us) (.unary op e) (n + 1) := by
  intro s rest table chain depth fuel hready hstops hdepth
  have henough := hready.enough
  rw [List.length_cons] at henough
  have hhere : s.At (token t :: (us.map token ++ rest)) table depth := hready.here
  refine answers_operand .sign hhere (by rw [ht]; cases op <;> rfl) fun u hu => ?_
  change Answers token _ (signed _) u _
  unfold signed signedOr
  apply Answers.after hu.advance
  rintro _ u ⟨rfl, hu⟩
  simp only [ht, PrefixOp.ofKind?_kind]
  have hready' : Ready token u us rest table chain depth fuel :=
    ⟨hu, hready.follows, by omega⟩
  rw [Phrase.violations]
  apply Answers.finish (he.reads hpos trivial hready' hstops (by omega))
  rintro tree u ⟨htree, hu⟩
  exact Answers.pure ⟨by simp [Phrase.tree?, htree], hu⟩

theorem Continues.argumentsLast {r : α} (he : Continues token .sum us e n) (hpos : 0 < us.length)
    (hr : (token r).kind = .closeParen) : ReadsArguments token (us ++ [r]) [e] (n + 1) := by
  intro s rest table chain depth fuel k hready hk hdepth
  have henough := hready.enough
  simp only [List.length_append, List.length_cons, List.length_nil] at henough hk
  obtain ⟨k, rfl⟩ : ∃ j, k = j + 1 := ⟨k - 1, by omega⟩
  have hhere : s.At (us.map token ++ (token r :: rest)) table depth := by
    simpa using hready.here
  have hstops : Stops .lowest (token r :: rest) :=
    Stops.of_kind hr (by decide) rfl
  have hready' : Ready token s us (token r :: rest) table chain depth fuel :=
    ⟨hhere, hready.follows, by simp only [List.length_cons]; omega⟩
  unfold argumentList separated
  rw [Phrase.violationsAll, Phrase.violationsAll, List.append_nil]
  apply Answers.finish (he.reads hpos (Level.admits_lowest _) hready' hstops (by omega))
  rintro tree u ⟨htree, hu⟩
  apply Answers.after hu.peekKind
  rintro _ u ⟨rfl, hu⟩
  simp only [List.head?_cons, Option.map_some, hr]
  apply Answers.after_discard hu.advance
  rintro _ u ⟨-, hu⟩
  exact Answers.pure ⟨by simp [Phrase.trees?, htree], hu⟩

theorem Continues.argumentsCons {c : α} {es : List (Phrase α)}
    (he : Continues token .sum us e n) (hpos : 0 < us.length) (hc : (token c).kind = .comma)
    (hes : ReadsArguments token vs es m) :
    ReadsArguments token (us ++ c :: vs) (e :: es) (max (n + 1) m) := by
  intro s rest table chain depth fuel k hready hk hdepth
  have henough := hready.enough
  simp only [List.length_append, List.length_cons] at henough hk
  obtain ⟨k, rfl⟩ : ∃ j, k = j + 1 := ⟨k - 1, by omega⟩
  have hhere : s.At (us.map token ++ (token c :: (vs.map token ++ rest))) table depth := by
    simpa using hready.here
  have hstops : Stops .lowest (token c :: (vs.map token ++ rest)) :=
    Stops.of_kind hc (by decide) rfl
  have hready' : Ready token s us (token c :: (vs.map token ++ rest)) table chain depth fuel := by
    refine ⟨hhere, hready.follows, ?_⟩
    simp only [List.length_cons, List.length_append, List.length_map]
    omega
  unfold argumentList separated
  rw [Phrase.violationsAll]
  apply Answers.bind (he.reads hpos (Level.admits_lowest _) hready' hstops (by omega))
  rintro tree u ⟨htree, hu⟩
  apply Answers.after hu.peekKind
  rintro _ u ⟨rfl, hu⟩
  simp only [List.head?_cons, Option.map_some, hc]
  apply Answers.after_discard hu.advance
  rintro _ u ⟨-, hu⟩
  apply Answers.finish (hes ⟨hu, hready.follows, by omega⟩ (by omega) (by omega))
  rintro trees u ⟨htrees, hu⟩
  exact Answers.pure ⟨by simp [Phrase.trees?, htree, htrees], hu⟩

theorem Continues.lift (h : Continues token level.next us e n) : Continues token level us e n := by
  intro s rest table chain depth fuel floor found good hready hadmits hstops hdepth hloop
  exact h hready (Level.admits_next hadmits) (hstops.mono (Level.rank_power_le_next _)) hdepth hloop

end Scopewise.Parse

namespace Scopewise.Grammar

open Parse (Continues ReadsArguments Reads BindingPower)

variable {α : Type} {token : α → Token} {us : List α} {e : Phrase α} {n : Nat}

mutual

theorem Derives.continues {level : Level} {us : List α} {e : Phrase α} {n : Nat} :
    Derives token level us e n → Continues token level us e n
  | .integer ht => (Parse.readsOperand_integer ht).continues (by simp)
  | .variable ht => (Parse.readsOperand_variable ht).continues (by simp)
  | .callNil ht hl hr => (Parse.readsOperand_callNil ht hl hr).continues (by simp)
  | .call ht hl hargs => (hargs.reads.call ht hl hargs.exists_cons).continues (by simp)
  | .group hl he hr => (Continues.group hl he.continues he.length_pos hr).continues (by simp)
  | .sign ht he => (Continues.sign ht he.continues he.length_pos).continues (by simp)
  | .lift he => he.continues.lift
  | .binary hop hl ht hr => Continues.binary hop hl.continues ht hr.continues hr.length_pos

theorem Arguments.reads {us : List α} {es : List (Phrase α)} {n : Nat} :
    Arguments token us es n → ReadsArguments token us es n
  | .last he hr => Continues.argumentsLast he.continues he.length_pos hr
  | .cons he hc hes => Continues.argumentsCons he.continues he.length_pos hc hes.reads

end

/-- A derived sum is read as the value of a statement is. -/
theorem Derives.reads (h : Derives token .sum us e n) : Reads token us e n .lowest :=
  h.continues.reads h.length_pos (Level.admits_lowest _)

end Scopewise.Grammar
