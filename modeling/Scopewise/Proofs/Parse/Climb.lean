import Scopewise.Proofs.Parse.AnswerStmt

namespace Scopewise.Parse

open Grammar

/-- The parse stands before the tokens `ahead`, has `depth` levels open and has had `peak`. -/
structure State.Up (s : State) (ahead : List Token) (depth peak : Nat) : Prop where
  low : depth ≤ peak
  pending : s.pending = ahead
  depth : s.depth = depth
  peak : s.peak = peak

namespace State.Up

variable {s : State} {t : Token} {ts : List Token} {depth peak peak' : Nat}

theorem cast (h : s.Up ts depth peak) (hpeak : peak = peak') : s.Up ts depth peak' :=
  hpeak ▸ h

theorem skip (h : s.Up ts depth peak) : s.skipNewlines.Up ts depth peak :=
  ⟨h.low, by rw [pending_skipNewlines, h.pending], h.depth, h.peak⟩

theorem next (h : s.Up (t :: ts) depth peak) : s.next.Up ts depth peak :=
  ⟨h.low, by rw [pending_next, h.pending, List.tail_cons], h.depth, h.peak⟩

theorem descend (h : s.Up ts depth peak) :
    s.descend.Up ts (depth + 1) (max peak (depth + 1)) where
  low := le_max_right _ _
  pending := h.pending
  depth := congrArg (· + 1) h.depth
  peak := by rw [← h.peak, ← h.depth]; rfl

theorem ascend (h : s.Up ts (depth + 1) peak) : s.ascend.Up ts depth peak :=
  ⟨Nat.le_of_succ_le h.low, h.pending, congrArg (· - 1) h.depth, h.peak⟩

theorem peek (h : s.Up ts depth peak) :
    Yields Parse.peek s fun a r => a = ts.head? ∧ r.Up ts depth peak :=
  ends_peek.2 ⟨by rw [h.pending], h.skip⟩

theorem peekKind (h : s.Up ts depth peak) :
    Yields Parse.peekKind s fun a r => a = ts.head?.map (·.kind) ∧ r.Up ts depth peak :=
  ends_peekKind.2 ⟨by rw [h.pending], h.skip⟩

theorem advance (h : s.Up (t :: ts) depth peak) :
    Yields Parse.advance s fun a r => a = t ∧ r.Up ts depth peak := by
  apply ends_advance.2
  rw [h.pending]
  exact ⟨rfl, h.next⟩

theorem expectNamed {kind : Token.Kind} {expected : String} (h : s.Up (t :: ts) depth peak) :
    Yields (Parse.expectNamed kind expected) s fun a r => a = t ∧ r.Up ts depth peak := by
  apply ends_expectNamed.2
  rw [h.pending]
  change if t.kind = kind then _ else _
  split
  · exact ⟨rfl, h.next⟩
  · trivial

theorem expect {kind : Token.Kind} (h : s.Up (t :: ts) depth peak) :
    Yields (Parse.expect kind) s fun a r => a = t ∧ r.Up ts depth peak :=
  h.expectNamed

theorem change {c : Scope.Change} (h : s.Up ts depth peak) :
    Yields (Parse.change c) s fun _ r => r.Up ts depth peak := by
  apply ends_change.2
  cases s.scopes.after? c with
  | none => trivial
  | some table => exact ⟨h.low, h.pending, h.depth, h.peak⟩

/-- A level around `p` counts one more than `p` itself. -/
theorem nested {α : Type} {bound n : Nat} {p : Parser α} {rest : List Token}
    (h : s.Up ts depth peak)
    (hp : ∀ r : State, r.Up ts (depth + 1) (max peak (depth + 1)) →
      Yields p r fun _ q => q.Up rest (depth + 1) (max (max peak (depth + 1)) (depth + 1 + n))) :
    Yields (Parse.nested (some bound) p) s fun _ q =>
      q.Up rest depth (max peak (depth + (n + 1))) := by
  refine Yields.nested fun _ => (hp s.descend h.descend).mono fun _ q hq => ?_
  exact hq.ascend.cast (by omega)

end State.Up

variable {us vs rest : List Token} {e : Phrase Token} {n m : Nat} {level : Level}

/-- Reading `us` leads to the loop over the operators behind it, with `n` levels opened. -/
def Climbs (level : Level) (us : List Token) (n : Nat) : Prop :=
  ∀ ⦃s : State⦄ ⦃rest : List Token⦄ ⦃depth peak fuel : Nat⦄ ⦃floor : BindingPower⦄
    ⦃good : Expr → State → Prop⦄,
    s.Up (us ++ rest) depth peak → us.length + rest.length ≤ fuel + 1 → level.admits floor →
    Stops level.power rest →
    (∀ left t m, t.Up rest depth (max peak (depth + n)) → rest.length ≤ m →
      Yields (operators .standard (expression .standard fuel) floor m left) t good) →
    Yields (content fuel floor) s good

def ClimbsOperand (us : List Token) (n : Nat) : Prop :=
  ∀ ⦃s : State⦄ ⦃rest : List Token⦄ ⦃depth peak fuel : Nat⦄,
    s.Up (us ++ rest) depth peak → us.length + rest.length ≤ fuel + 1 → Stops .unary rest →
    Yields (operand .standard fuel (expression .standard fuel)) s fun _ t =>
      t.Up rest depth (max peak (depth + n))

def ClimbsArguments (us : List Token) (n : Nat) : Prop :=
  ∀ ⦃s : State⦄ ⦃rest : List Token⦄ ⦃depth peak fuel m : Nat⦄,
    s.Up (us ++ rest) depth peak → us.length + rest.length ≤ fuel →
    us.length + rest.length ≤ m →
    Yields (argumentList (expression .standard fuel .lowest) m) s fun _ t =>
      t.Up rest depth (max peak (depth + n))

theorem ClimbsOperand.climbs (h : ClimbsOperand us n) (hpos : 0 < us.length) :
    Climbs level us n := by
  intro s rest depth peak fuel floor good hs hfuel _ hstops hloop
  have hrank : level.power.rank ≤ BindingPower.unary.rank := by cases level <;> decide
  apply (h hs hfuel (hstops.mono hrank)).bind
  intro left t ht
  exact hloop left t fuel ht (by omega)

theorem Climbs.lift (h : Climbs level.next us n) : Climbs level us n := by
  intro s rest depth peak fuel floor good hs hfuel hadmits hstops hloop
  exact h hs hfuel (Level.admits_next hadmits) (hstops.mono (Level.rank_power_le_next _)) hloop

/-- The loop ends where no operator above `floor` follows. -/
theorem yields_operators_of_stops {s : State} {depth peak : Nat} {floor : BindingPower}
    {sub : BindingPower → Parser Expr} {left : Expr} (hs : s.Up rest depth peak)
    (hstops : Stops floor rest) :
    Yields (operators .standard sub floor m left) s fun _ t => t.Up rest depth peak := by
  cases m with
  | zero => exact Yields.pure hs
  | succ m =>
    unfold operators climb
    apply hs.peekKind.bind
    rintro _ t ⟨rfl, ht⟩
    split
    · exact Yields.pure ht
    · next power hpower =>
      obtain ⟨kind, hkind, hpower'⟩ := Option.bind_eq_some_iff.1 hpower
      obtain ⟨u, hu, rfl⟩ := Option.map_eq_some_iff.1 hkind
      rw [if_pos ((hstops u hu).2 power hpower')]
      exact Yields.pure ht

/-- An expression opens a level for itself. -/
theorem Climbs.expression (h : Climbs level us n) (hpos : 0 < us.length) {s : State}
    {depth peak fuel : Nat} {floor : BindingPower} (hadmits : level.admits floor)
    (hs : s.Up (us ++ rest) depth peak) (hfuel : us.length + rest.length ≤ fuel)
    (hstops : Stops floor rest) :
    Yields (expression .standard fuel floor) s fun _ t =>
      t.Up rest depth (max peak (depth + (n + 1))) := by
  obtain ⟨k, rfl⟩ : ∃ k, fuel = k + 1 := ⟨fuel - 1, by omega⟩
  rw [expression_succ]
  refine hs.nested fun r hr => ?_
  refine h hr hfuel hadmits (hstops.mono (Level.rank_le_of_admits hadmits)) ?_
  intro left t m ht _
  exact yields_operators_of_stops ht hstops

theorem Climbs.binary {op : BinaryOp} {t : Token} (hop : op.level = level)
    (hl : Climbs level us n) (ht : t.kind = op.kind) (hr : Climbs level.next vs m)
    (hvs : 0 < vs.length) : Climbs level (us ++ t :: vs) (max n (m + 1)) := by
  subst hop
  intro s rest depth peak fuel floor good hs hfuel hadmits hstops hloop
  rw [List.length_append, List.length_cons] at hfuel
  rw [List.append_assoc, List.cons_append] at hs
  have hstops' : Stops op.level.power (t :: (vs ++ rest)) := by
    intro u hu
    obtain rfl : t = u := by simpa using hu
    refine ⟨by rw [ht]; cases op <;> decide, fun power hp => ?_⟩
    rw [ht, power?_kind] at hp
    exact Nat.le_of_eq (congrArg _ (Option.some.inj hp)).symm
  have hlength : us.length + (t :: (vs ++ rest)).length ≤ fuel + 1 := by
    rw [List.length_cons, List.length_append]
    omega
  refine hl hs hlength hadmits hstops' ?_
  intro left u k hu hk
  rw [List.length_cons, List.length_append] at hk
  obtain ⟨k, rfl⟩ : ∃ j, k = j + 1 := ⟨k - 1, by omega⟩
  unfold operators climb
  apply hu.peekKind.bind
  rintro _ u ⟨rfl, hu⟩
  simp only [List.head?_cons, Option.map_some, Option.bind_some, ht, power?_kind,
    if_neg (not_power_le_of_admits hadmits)]
  unfold Parse.binary Parse.binaryOr
  rw [bind_assoc]
  apply hu.advance.bind
  rintro _ v ⟨rfl, hv⟩
  simp only [ht, BinaryOp.ofKind?_kind, bind_assoc, pure_bind]
  apply (hr.expression hvs (Level.next_admits_power _) hv (by omega) hstops).bind
  intro right w hw
  exact hloop _ w k (hw.cast (by omega)) (by omega)

theorem yields_operand_of_rule {s : State} {t : Token} {depth peak fuel : Nat}
    {sub : BindingPower → Parser Expr} {good : Expr → State → Prop} (rule : OperandRule)
    (hs : s.Up (t :: us) depth peak) (hrule : Rules.standard.operand? t.kind = some rule)
    (hparse : ∀ r : State, r.Up (t :: us) depth peak → Yields (rule.parse fuel sub) r good) :
    Yields (operand .standard fuel sub) s good := by
  unfold operand operandOf
  apply hs.peek.bind
  rintro _ r ⟨rfl, hr⟩
  simp only [List.head?_cons, hrule]
  exact hparse r hr

theorem climbsOperand_integer {t : Token} (ht : t.kind = .integer) : ClimbsOperand [t] 0 := by
  intro s rest depth peak fuel hs _ _
  refine yields_operand_of_rule .literal hs (by rw [ht]; rfl) fun r hr => ?_
  change Yields literal r _
  unfold literal
  refine hr.expect.bind fun u q hq => ?_
  split
  · exact Yields.pure (hq.2.cast (Nat.max_eq_left hs.low).symm)
  · exact Yields.failAt

theorem climbsOperand_variable {t : Token} (ht : t.kind = .identifier) : ClimbsOperand [t] 0 := by
  intro s rest depth peak fuel hs _ hstops
  change s.Up (t :: rest) depth peak at hs
  refine yields_operand_of_rule .name hs (by rw [ht]; rfl) fun r hr => ?_
  change Yields (reference fuel _) r _
  unfold reference referenceOf
  refine hr.expect.bind fun u q hq => ?_
  apply hq.2.peekKind.bind
  rintro _ q ⟨rfl, hq⟩
  have hparen : rest.head?.map (·.kind) ≠ some .openParen := by
    intro h
    obtain ⟨v, hv, hk⟩ := Option.map_eq_some_iff.1 h
    exact (hstops v hv).1 hk
  rw [if_neg hparen]
  refine ends_bind.2 (ends_get.2 ?_)
  split
  · exact Yields.pure (hq.cast (Nat.max_eq_left hs.low).symm)
  · exact Yields.failAt

/-- A call opens the levels that its arguments open. -/
theorem climbsOperand_call {t l : Token} (ht : t.kind = .identifier) (hl : l.kind = .openParen)
    (hargs : ∀ ⦃s : State⦄ ⦃rest : List Token⦄ ⦃depth peak fuel : Nat⦄,
      s.Up (l :: (us ++ rest)) depth peak → us.length + rest.length ≤ fuel →
      Yields (arguments fuel (expression .standard fuel .lowest)) s fun _ r =>
        r.Up rest depth (max peak (depth + n))) :
    ClimbsOperand (t :: l :: us) n := by
  intro s rest depth peak fuel hs hfuel _
  change s.Up (t :: l :: (us ++ rest)) depth peak at hs
  simp only [List.length_cons] at hfuel
  refine yields_operand_of_rule .name hs (by rw [ht]; rfl) fun r hr => ?_
  change Yields (reference fuel _) r _
  unfold reference referenceOf
  refine hr.expect.bind fun u q hq => ?_
  apply hq.2.peekKind.bind
  rintro _ q ⟨rfl, hq⟩
  rw [List.head?_cons, Option.map_some, hl, if_pos rfl]
  refine ends_bind.2 (ends_get.2 ?_)
  split
  · exact (hargs hq (by omega)).bind fun _ r hr => Yields.pure hr
  · exact Yields.failAt

theorem climbsOperand_callNil {t l r : Token} (ht : t.kind = .identifier)
    (hl : l.kind = .openParen) (hr : r.kind = .closeParen) : ClimbsOperand [t, l, r] 0 := by
  refine climbsOperand_call ht hl fun s rest depth peak fuel hs _ => ?_
  unfold arguments enclosed
  refine hs.expect.discard fun _ p hp => ?_
  apply hp.2.peekKind.bind
  rintro _ q ⟨rfl, hq⟩
  simp only [List.cons_append, List.head?_cons, Option.map_some, hr, if_true]
  refine hq.advance.discard fun _ p hp => ?_
  exact Yields.pure (hp.2.cast (Nat.max_eq_left hs.low).symm)

theorem ClimbsArguments.call {t l : Token} (h : ClimbsArguments us n) (ht : t.kind = .identifier)
    (hl : l.kind = .openParen) (hus : ∃ v vs, us = v :: vs ∧ v.kind ≠ .closeParen) :
    ClimbsOperand (t :: l :: us) n := by
  refine climbsOperand_call ht hl fun s rest depth peak fuel hs hfuel => ?_
  unfold arguments enclosed
  refine hs.expect.discard fun _ p hp => ?_
  apply hp.2.peekKind.bind
  rintro _ q ⟨rfl, hq⟩
  obtain ⟨v, vs, rfl, hv⟩ := hus
  rw [List.cons_append, List.head?_cons, Option.map_some, if_neg (by simpa using hv)]
  exact h hq hfuel hfuel

theorem Climbs.group {l r : Token} (hl : l.kind = .openParen) (he : Climbs .sum us n)
    (hpos : 0 < us.length) (hr : r.kind = .closeParen) :
    ClimbsOperand (l :: us ++ [r]) (n + 1) := by
  intro s rest depth peak fuel hs hfuel _
  simp only [List.length_append, List.length_cons, List.length_nil] at hfuel
  have hs' : s.Up (l :: (us ++ (r :: rest))) depth peak := by simpa using hs
  refine yields_operand_of_rule .group hs' (by rw [hl]; rfl) fun q hq => ?_
  change Yields (Parse.group _) q _
  unfold Parse.group
  refine hq.expect.discard fun _ p hp => ?_
  have hlength : us.length + (r :: rest).length ≤ fuel := by rw [List.length_cons]; omega
  refine (he.expression hpos (Level.admits_lowest _) hp.2 hlength
    (Stops.of_kind hr (by decide) rfl)).bind fun _ q hq => ?_
  exact hq.expect.discard fun _ p hp => Yields.pure hp.2

theorem Climbs.sign {t : Token} {op : PrefixOp} (ht : t.kind = op.kind) (he : Climbs .unary us n)
    (hpos : 0 < us.length) : ClimbsOperand (t :: us) (n + 1) := by
  intro s rest depth peak fuel hs hfuel hstops
  rw [List.length_cons] at hfuel
  refine yields_operand_of_rule .sign hs (by rw [ht]; cases op <;> rfl) fun q hq => ?_
  change Yields (signed _) q _
  unfold signed signedOr
  apply hq.advance.bind
  rintro _ p ⟨rfl, hp⟩
  simp only [ht, PrefixOp.ofKind?_kind]
  exact (he.expression hpos trivial hp (by omega) hstops).bind fun _ q hq => Yields.pure hq

theorem Climbs.argumentsLast {r : Token} (he : Climbs .sum us n) (hpos : 0 < us.length)
    (hr : r.kind = .closeParen) : ClimbsArguments (us ++ [r]) (n + 1) := by
  intro s rest depth peak fuel k hs hfuel hk
  simp only [List.length_append, List.length_cons, List.length_nil] at hfuel hk
  obtain ⟨k, rfl⟩ : ∃ j, k = j + 1 := ⟨k - 1, by omega⟩
  have hs' : s.Up (us ++ (r :: rest)) depth peak := by simpa using hs
  have hlength : us.length + (r :: rest).length ≤ fuel := by rw [List.length_cons]; omega
  unfold argumentList separated
  refine (he.expression hpos (Level.admits_lowest _) hs' hlength
    (Stops.of_kind hr (by decide) rfl)).bind fun _ q hq => ?_
  apply hq.peekKind.bind
  rintro _ q ⟨rfl, hq⟩
  simp only [List.head?_cons, Option.map_some, hr]
  exact hq.advance.discard fun _ p hp => Yields.pure hp.2

theorem Climbs.argumentsCons {c : Token} (he : Climbs .sum us n) (hpos : 0 < us.length)
    (hc : c.kind = .comma) (hes : ClimbsArguments vs m) :
    ClimbsArguments (us ++ c :: vs) (max (n + 1) m) := by
  intro s rest depth peak fuel k hs hfuel hk
  simp only [List.length_append, List.length_cons] at hfuel hk
  obtain ⟨k, rfl⟩ : ∃ j, k = j + 1 := ⟨k - 1, by omega⟩
  have hs' : s.Up (us ++ (c :: (vs ++ rest))) depth peak := by simpa using hs
  have hlength : us.length + (c :: (vs ++ rest)).length ≤ fuel := by
    rw [List.length_cons, List.length_append]
    omega
  unfold argumentList separated
  refine (he.expression hpos (Level.admits_lowest _) hs' hlength
    (Stops.of_kind hc (by decide) rfl)).bind fun _ q hq => ?_
  apply hq.peekKind.bind
  rintro _ q ⟨rfl, hq⟩
  simp only [List.head?_cons, Option.map_some, hc]
  refine hq.advance.discard fun _ p hp => ?_
  refine (hes hp.2 (by omega) (by omega)).bind fun _ q hq => ?_
  exact Yields.pure (hq.cast (by omega))

end Scopewise.Parse

namespace Scopewise.Grammar

open Parse (Climbs ClimbsArguments)

mutual

theorem Derives.climbs {level : Level} {us : List Token} {e : Phrase Token} {n : Nat} :
    Derives id level us e n → Climbs level us n
  | .integer ht => (Parse.climbsOperand_integer ht).climbs (by simp)
  | .variable ht => (Parse.climbsOperand_variable ht).climbs (by simp)
  | .callNil ht hl hr => (Parse.climbsOperand_callNil ht hl hr).climbs (by simp)
  | .call ht hl hargs => (hargs.climbs.call ht hl hargs.exists_cons).climbs (by simp)
  | .group hl he hr => (Climbs.group hl he.climbs he.length_pos hr).climbs (by simp)
  | .sign ht he => (Climbs.sign ht he.climbs he.length_pos).climbs (by simp)
  | .lift he => he.climbs.lift
  | .binary hop hl ht hr => Climbs.binary hop hl.climbs ht hr.climbs hr.length_pos

theorem Arguments.climbs {us : List Token} {es : List (Phrase Token)} {n : Nat} :
    Arguments id us es n → ClimbsArguments us n
  | .last he hr => Climbs.argumentsLast he.climbs he.length_pos hr
  | .cons he hc hes => Climbs.argumentsCons he.climbs he.length_pos hc hes.climbs

end

end Scopewise.Grammar

namespace Scopewise.Parse

open Grammar

variable {us vs rest : List Token} {e : Phrase Token} {n m : Nat}

/-- What declares a name opens no level. -/
theorem yields_freshVariable_up {s : State} {t : Token} {ts : List Token} {depth peak : Nat}
    {expected : String} (hs : s.Up (t :: ts) depth peak) :
    Yields (freshVariable expected) s fun _ r => r.Up ts depth peak := by
  unfold freshVariable
  refine hs.expectNamed.bind fun u r hr => ?_
  refine ends_bind.2 (ends_get.2 ?_)
  split
  · exact Yields.failAt
  · exact Yields.pure hr.2

theorem yields_freshFunction_up {s : State} {t : Token} {ts : List Token} {depth peak : Nat}
    (hs : s.Up (t :: ts) depth peak) :
    Yields freshFunction s fun _ r => r.Up ts depth peak := by
  unfold freshFunction
  refine hs.expectNamed.bind fun u r hr => ?_
  refine ends_bind.2 (ends_get.2 ?_)
  split
  · exact Yields.failAt
  · exact Yields.pure hr.2

theorem yields_returnType_up {s : State} {t : Token} {ts : List Token} {depth peak : Nat}
    (hs : s.Up (t :: ts) depth peak) : Yields returnType s fun _ r => r.Up ts depth peak := by
  unfold returnType
  refine hs.expectNamed.bind fun u r hr => ?_
  split
  · exact Yields.pure hr.2
  · exact Yields.failAt

theorem yields_param_up {s : State} {name colon type : Token} {ts : List Token} {depth peak : Nat}
    (hs : s.Up (name :: colon :: type :: ts) depth peak) :
    Yields param s fun _ r => r.Up ts depth peak := by
  unfold param
  refine (yields_freshVariable_up hs).bind fun _ r hr => ?_
  refine hr.expect.discard fun _ r hr => ?_
  unfold paramType
  rw [bind_assoc]
  refine hr.2.expectNamed.bind fun _ r hr => ?_
  rw [pure_bind]
  exact hr.2.change.bind fun _ r hr => Yields.pure hr

/-- Parameters open no level. -/
theorem yields_paramList_up {ps : List (Token × Token)} (h : Parameters id us ps) {s : State}
    {depth peak fuel : Nat} (hs : s.Up (us ++ rest) depth peak) (hfuel : us.length ≤ fuel) :
    Yields (paramList fuel) s fun _ r => r.Up rest depth peak := by
  induction h generalizing s fuel with
  | @last name colon type r _ _ _ hr =>
    simp only [List.length_cons] at hfuel
    obtain ⟨fuel, rfl⟩ : ∃ k, fuel = k + 1 := ⟨fuel - 1, by omega⟩
    change s.Up (name :: colon :: type :: r :: rest) depth peak at hs
    unfold paramList separated
    refine (yields_param_up hs).bind fun _ q hq => ?_
    apply hq.peekKind.bind
    rintro _ q ⟨rfl, hq⟩
    have hkind : r.kind = .closeParen := hr
    simp only [List.head?_cons, Option.map_some, hkind]
    exact hq.advance.discard fun _ q hq => Yields.pure hq.2
  | @cons name colon type c us ps _ _ _ hc _ ih =>
    simp only [List.length_cons] at hfuel
    obtain ⟨fuel, rfl⟩ : ∃ k, fuel = k + 1 := ⟨fuel - 1, by omega⟩
    change s.Up (name :: colon :: type :: c :: (us ++ rest)) depth peak at hs
    unfold paramList separated
    refine (yields_param_up hs).bind fun _ q hq => ?_
    apply hq.peekKind.bind
    rintro _ q ⟨rfl, hq⟩
    have hkind : c.kind = .comma := hc
    simp only [List.head?_cons, Option.map_some, hkind]
    refine hq.advance.discard fun _ q hq => ?_
    exact (ih hq.2 (by omega)).bind fun _ q hq => Yields.pure hq

theorem yields_params_up {ps : List (Token × Token)} (h : Signature id us ps) {s : State}
    {depth peak fuel : Nat} (hs : s.Up (us ++ rest) depth peak) (hfuel : us.length ≤ fuel) :
    Yields (params fuel) s fun _ r => r.Up rest depth peak := by
  cases h with
  | @nil l r hl hr =>
    change s.Up (l :: r :: rest) depth peak at hs
    unfold params enclosed
    refine hs.expect.discard fun _ q hq => ?_
    apply hq.2.peekKind.bind
    rintro _ q ⟨rfl, hq⟩
    have hkind : r.kind = .closeParen := hr
    simp only [List.head?_cons, Option.map_some, hkind, if_true]
    exact hq.advance.discard fun _ q hq => Yields.pure hq.2
  | @params l us ps hl hps =>
    change s.Up (l :: (us ++ rest)) depth peak at hs
    rw [List.length_cons] at hfuel
    unfold params enclosed
    refine hs.expect.discard fun _ q hq => ?_
    apply hq.2.peekKind.bind
    rintro _ q ⟨rfl, hq⟩
    have hhead : ((us ++ rest).head?.map (·.kind)) ≠ some .closeParen := by
      obtain ⟨t, ts, rfl, ht⟩ := hps.exists_cons
      have hkind : t.kind = .identifier := ht
      simp [hkind]
    rw [if_neg hhead]
    exact yields_paramList_up hps hq (by omega)

def ClimbsStatement (us : List Token) (n : Nat) : Prop :=
  ∀ ⦃s : State⦄ ⦃rest : List Token⦄ ⦃depth peak fuel : Nat⦄,
    s.Up (us ++ rest) depth peak → us.length + rest.length ≤ fuel → Stops .lowest rest →
    Yields (statement .standard fuel) s fun _ t => t.Up rest depth (max peak (depth + n))

/-- `loop` takes statements one after the other until it stands before `rest`, and opens no level
for itself. -/
structure Loops (stmt : Parser (Option Stmt)) (loop : Nat → Parser (List Stmt))
    (rest : List Token) : Prop where
  stop {s : State} {depth peak m : Nat} : s.Up rest depth peak → rest.length ≤ m →
    Yields (loop m) s fun _ r => r.Up rest depth peak
  turn {s : State} {t : Token} {ts : List Token} {depth peak m : Nat}
    {good : List Stmt → State → Prop} : s.Up (t :: ts) depth peak → t.kind ≠ .closeCurly →
    (∀ r : State, r.Up (t :: ts) depth peak → Yields (turn stmt (loop m)) r good) →
    Yields (loop (m + 1)) s good

def ClimbsBody (us : List Token) (n : Nat) : Prop :=
  ∀ ⦃s : State⦄ ⦃rest : List Token⦄ ⦃depth peak fuel m : Nat⦄ ⦃loop : Nat → Parser (List Stmt)⦄,
    s.Up (us ++ rest) depth peak → us.length + rest.length ≤ fuel →
    Loops (statement .standard fuel) loop rest → Stops .lowest rest →
    us.length + rest.length ≤ m →
    Yields (loop m) s fun _ t => t.Up rest depth (max peak (depth + n))

theorem loops_blockBody {stmt : Parser (Option Stmt)} {t : Token} (ht : t.kind = .closeCurly) :
    Loops stmt (blockBody stmt) (t :: rest) where
  stop {s depth peak m} hs hm := by
    obtain ⟨m, rfl⟩ : ∃ k, m = k + 1 := ⟨m - 1, by rw [List.length_cons] at hm; omega⟩
    unfold blockBody untilBrace stmtLoop
    apply hs.peekKind.bind
    rintro _ r ⟨rfl, hr⟩
    simp only [List.head?_cons, Option.map_some, ht]
    exact Yields.pure hr
  turn {s u us depth peak m good} hs hu h := by
    unfold blockBody untilBrace stmtLoop
    apply hs.peekKind.bind
    rintro _ r ⟨rfl, hr⟩
    simp only [List.head?_cons, Option.map_some]
    exact h r hr

theorem loops_topLevel (stmt : Parser (Option Stmt)) : Loops stmt (topLevel stmt) [] where
  stop {s depth peak m} hs _ := by
    cases m with
    | zero => exact Yields.pure hs
    | succ m =>
      unfold topLevel untilEnd stmtLoop
      apply hs.peekKind.bind
      rintro _ r ⟨rfl, hr⟩
      exact Yields.pure hr
  turn {s u us depth peak m good} hs hu h := by
    unfold topLevel untilEnd stmtLoop
    apply hs.peekKind.bind
    rintro _ r ⟨rfl, hr⟩
    simp only [List.head?_cons, Option.map_some]
    exact h r hr

theorem climbsBody_nil : ClimbsBody [] 0 := by
  intro s rest depth peak fuel m loop hs _ hloop _ hm
  refine (hloop.stop hs (by simpa using hm)).mono fun _ r hr => ?_
  exact hr.cast (Nat.max_eq_left hs.low).symm

/-- A turn of the loop takes in a statement or a semicolon. -/
theorem ClimbsBody.turn {t : Token} {s : State} {depth peak fuel k : Nat}
    {loop : Nat → Parser (List Stmt)} (h : ClimbsBody vs m)
    (hs : s.Up (t :: us ++ (vs ++ rest)) depth peak)
    (hfuel : (t :: us).length + (vs.length + rest.length) ≤ fuel)
    (hloop : Loops (statement .standard fuel) loop rest) (hstops : Stops .lowest rest)
    (hk : (t :: us).length + (vs.length + rest.length) ≤ k) (ht : t.kind ≠ .closeCurly)
    (hstmt : ∀ r : State, r.Up (t :: us ++ (vs ++ rest)) depth peak →
      Yields (statement .standard fuel) r fun _ q =>
        q.Up (vs ++ rest) depth (max peak (depth + n))) :
    Yields (loop k) s fun _ r => r.Up rest depth (max peak (depth + max n m)) := by
  rw [List.length_cons] at hfuel hk
  obtain ⟨k, rfl⟩ : ∃ j, k = j + 1 := ⟨k - 1, by omega⟩
  refine hloop.turn hs ht fun r hr => ?_
  unfold Parse.turn
  refine (hstmt r hr).bind fun stmt? q hq => ?_
  have hrest : Yields (loop k) q fun _ r => r.Up rest depth (max peak (depth + max n m)) := by
    refine (h hq (by omega) hloop hstops (by omega)).mono fun _ r hr => ?_
    exact hr.cast (by omega)
  cases stmt? with
  | none => exact hrest
  | some first => exact hrest.bind fun _ r hr => Yields.pure hr

theorem ClimbsBody.semicolon {t : Token} (ht : t.kind = .semicolon) (h : ClimbsBody us n) :
    ClimbsBody (t :: us) n := by
  intro s rest depth peak fuel m loop hs hfuel hloop hstops hm
  have hlow := hs.low
  rw [List.length_cons] at hfuel hm
  have hbody : Yields (loop m) s fun _ r => r.Up rest depth (max peak (depth + max 0 n)) := by
    have hs' : s.Up ([t] ++ (us ++ rest)) depth peak := hs
    have hclose : t.kind ≠ .closeCurly := by rw [ht]; decide
    refine h.turn hs' (by simp; omega) hloop hstops (by simp; omega) hclose fun r hr => ?_
    obtain ⟨k, rfl⟩ : ∃ k, fuel = k + 1 := ⟨fuel - 1, by omega⟩
    unfold statement statementOf
    apply hr.peek.bind
    rintro _ q ⟨rfl, hq⟩
    simp only [List.cons_append, List.head?_cons, ht]
    refine hq.advance.discard fun _ q hq => ?_
    exact Yields.pure (hq.2.cast (by omega))
  exact hbody.mono fun _ r hr => hr.cast (by omega)

theorem ClimbsStatement.body {c : List (Clause Token)} (hc : ClimbsStatement us n)
    (hcs : ClimbsBody vs m) (hhead : ∃ t ts, us = t :: ts ∧ t.kind = .identifier)
    (hvs : Body id vs c m) : ClimbsBody (us ++ vs) (max n m) := by
  intro s rest depth peak fuel k loop hs hfuel hloop hstops hk
  obtain ⟨t, ts, rfl, ht⟩ := hhead
  rw [List.append_assoc] at hs
  rw [List.length_append, Nat.add_assoc] at hfuel hk
  have hclose : t.kind ≠ .closeCurly := by rw [ht]; decide
  have hbehind : Stops .lowest (vs ++ rest) := by simpa using stops_body hvs hstops
  refine hcs.turn hs hfuel hloop hstops hk hclose fun r hr => ?_
  exact hc hr (by rw [List.length_append]; exact hfuel) hbehind

theorem yields_keyword_up {s : State} {t : Token} {depth peak k : Nat}
    {good : Option Stmt → State → Prop} {word : String} (rule : StmtRule)
    (hs : s.Up (t :: us) depth peak) (ht : t.isWord word = true)
    (hrule : Rules.standard.stmt? word = some rule)
    (hparse : ∀ r : State, r.Up (t :: us) depth peak →
      Yields (rule.parse .standard (k + 1) (statement .standard k)) r
        fun tree q => good (some tree) q) :
    Yields (statement .standard (k + 1)) s good := by
  obtain ⟨hkind, rfl⟩ : t.kind = .identifier ∧ t.value = word := by simpa [Token.isWord] using ht
  unfold statement statementOf
  apply hs.peek.bind
  rintro _ r ⟨rfl, hr⟩
  simp only [List.head?_cons, hkind, hrule]
  exact (hparse r hr).bind fun _ q hq => Yields.pure hq

/-- The value of a statement and the semicolon behind it. -/
theorem yields_value_up {β : Type} {s : State} {depth peak fuel : Nat} {semicolon : Token}
    {next : Expr → Parser β} {good : β → State → Prop} (he : Derives id .sum us e n)
    (hsemicolon : semicolon.kind = .semicolon)
    (hs : s.Up (us ++ semicolon :: rest) depth peak)
    (hfuel : us.length + (semicolon :: rest).length ≤ fuel)
    (hnext : ∀ tree r, State.Up r rest depth (max peak (depth + (n + 1))) →
      Yields (next tree) r good) :
    Yields (do let value ← expression .standard fuel .lowest; discard (expect .semicolon)
               next value) s good := by
  refine (he.climbs.expression he.length_pos (Level.admits_lowest _) hs hfuel
    (Stops.of_kind hsemicolon (by decide) rfl)).bind fun tree r hr => ?_
  exact hr.expect.discard fun _ r hr => hnext tree r hr.2

theorem climbsStatement_binding {mutability : Mutability} {lead name eq semicolon : Token}
    (hlead : lead.isWord mutability.keyword = true) (he : Derives id .sum us e n)
    (hsemicolon : semicolon.kind = .semicolon) :
    ClimbsStatement (lead :: name :: eq :: us ++ [semicolon]) (n + 1) := by
  intro s rest depth peak fuel hs hfuel _
  simp only [List.length_append, List.length_cons, List.length_nil] at hfuel
  obtain ⟨k, rfl⟩ : ∃ k, fuel = k + 1 := ⟨fuel - 1, by omega⟩
  have hs' : s.Up (lead :: name :: eq :: (us ++ semicolon :: rest)) depth peak := by simpa using hs
  refine yields_keyword_up .binding hs' hlead (keyword_rule mutability) fun r hr => ?_
  change Yields (Parse.binding _) r _
  unfold Parse.binding
  refine hr.advance.bind fun _ r hr => ?_
  refine (yields_freshVariable_up hr.2).bind fun _ r hr => ?_
  refine hr.expect.discard fun _ r hr => ?_
  apply yields_value_up he hsemicolon hr.2 (by rw [List.length_cons]; omega)
  intro tree r hr
  exact hr.change.bind fun _ r hr => Yields.pure hr

theorem climbsStatement_returning {lead semicolon : Token} (hlead : lead.isWord "return" = true)
    (he : Derives id .sum us e n) (hsemicolon : semicolon.kind = .semicolon) :
    ClimbsStatement (lead :: us ++ [semicolon]) (n + 1) := by
  intro s rest depth peak fuel hs hfuel _
  simp only [List.length_append, List.length_cons, List.length_nil] at hfuel
  obtain ⟨k, rfl⟩ : ∃ k, fuel = k + 1 := ⟨fuel - 1, by omega⟩
  have hs' : s.Up (lead :: (us ++ semicolon :: rest)) depth peak := by simpa using hs
  refine yields_keyword_up .returning hs' hlead rfl fun r hr => ?_
  change Yields (Parse.returning _) r _
  unfold Parse.returning
  refine hr.advance.discard fun _ r hr => ?_
  apply yields_value_up he hsemicolon hr.2 (by rw [List.length_cons]; omega)
  intro tree r hr
  exact Yields.pure hr

theorem climbsStatement_bare {t : Token} (ht : t.kind = .identifier) (hword : t.value ∉ keywords)
    (he : Derives id .sum (t :: us) e n) : ClimbsStatement (t :: us) (n + 1) := by
  intro s rest depth peak fuel hs hfuel hstops
  obtain ⟨k, rfl⟩ : ∃ k, fuel = k + 1 := ⟨fuel - 1, by rw [List.length_cons] at hfuel; omega⟩
  unfold statement statementOf
  apply hs.peek.bind
  rintro _ r ⟨rfl, hr⟩
  simp only [List.cons_append, List.head?_cons, ht, stmt?_eq_none_iff.2 hword]
  refine (he.climbs.expression he.length_pos (Level.admits_lowest _) hr hfuel hstops).bind ?_
  exact fun _ r hr => Yields.pure hr

/-- A block opens a level for its body. -/
theorem ClimbsBody.block {s : State} {depth peak fuel : Nat} {l r : Token} (h : ClimbsBody us n)
    (hs : s.Up (l :: (us ++ r :: rest)) depth peak)
    (hfuel : us.length + (r :: rest).length ≤ fuel) (hr : r.kind = .closeCurly) :
    Yields (block (some Rules.maxNesting) (fuel + 1) (statement .standard fuel)) s fun _ t =>
      t.Up rest depth (max peak (depth + (n + 1))) := by
  unfold Parse.block Parse.blockOf
  refine hs.expect.discard fun _ t ht => ?_
  have hnested : Yields (nested (some Rules.maxNesting) (blockBody (statement .standard fuel)
      (fuel + 1))) t fun _ q => q.Up (r :: rest) depth (max peak (depth + (n + 1))) := by
    refine ht.2.nested fun q hq => ?_
    exact h hq hfuel (loops_blockBody hr) (Stops.of_kind hr (by decide) rfl) (by omega)
  refine hnested.bind fun _ q hq => ?_
  exact hq.expect.discard fun _ q hq => Yields.pure hq.2

theorem ClimbsBody.function {lead name colon type l r semicolon : Token}
    {ps : List (Token × Token)} (h : ClimbsBody vs n) (hlead : lead.isWord "fn" = true)
    (hps : Signature id us ps) (hr : r.kind = .closeCurly) :
    ClimbsStatement (lead :: name :: us ++ colon :: type :: l :: vs ++ [r, semicolon])
      (n + 1) := by
  intro s rest depth peak fuel hs hfuel _
  simp only [List.length_append, List.length_cons, List.length_nil] at hfuel
  obtain ⟨k, rfl⟩ : ∃ k, fuel = k + 1 := ⟨fuel - 1, by omega⟩
  have hs' : s.Up (lead :: name :: (us ++ colon :: type :: l :: (vs ++ r :: semicolon :: rest)))
      depth peak := by
    simpa using hs
  refine yields_keyword_up .function hs' hlead rfl fun q hq => ?_
  change Yields (Parse.function _ _) q _
  unfold Parse.function Parse.functionOf
  refine hq.advance.discard fun _ q hq => ?_
  refine (yields_freshFunction_up hq.2).bind fun _ q hq => ?_
  refine hq.change.bind fun _ q hq => ?_
  refine hq.change.bind fun _ q hq => ?_
  refine (yields_params_up hps hq (by omega)).bind fun _ q hq => ?_
  refine hq.expect.discard fun _ q hq => ?_
  refine (yields_returnType_up hq.2).bind fun _ q hq => ?_
  have hlength : vs.length + (r :: semicolon :: rest).length ≤ k := by
    simp only [List.length_cons]
    omega
  refine (h.block hq hlength hr).bind fun _ q hq => ?_
  refine hq.expect.discard fun _ q hq => ?_
  exact hq.2.change.bind fun _ q hq => Yields.pure hq

end Scopewise.Parse

namespace Scopewise.Grammar

open Parse (ClimbsStatement ClimbsBody)

mutual

theorem Statement.climbs {us : List Token} {c : Clause Token} {n : Nat} :
    Statement id us c n → ClimbsStatement us n
  | .function hlead _ hps _ _ _ hbody hr _ => hbody.climbs.function hlead hps hr
  | .binding hlead _ _ he hsemicolon => Parse.climbsStatement_binding hlead he hsemicolon
  | .returning hlead he hsemicolon => Parse.climbsStatement_returning hlead he hsemicolon
  | .bare ht hword he => Parse.climbsStatement_bare ht hword he

theorem Body.climbs {us : List Token} {cs : List (Clause Token)} {n : Nat} :
    Body id us cs n → ClimbsBody us n
  | .nil => Parse.climbsBody_nil
  | .semicolon ht hcs => hcs.climbs.semicolon ht
  | .cons hc hcs => hc.climbs.body hcs.climbs hc.exists_cons hcs

end

/-- A whole program has as many levels open at once as a derivation of its tokens counts. -/
theorem Body.climbs_program {tokens : List Token} {cs : List (Clause Token)} {n : Nat}
    (h : Body id (tokens.filter (·.kind ≠ .newline)) cs n) (file : String) :
    Parse.Yields (Parse.program .standard tokens.length) { rest := tokens, file }
      fun _ last => last.peak = n := by
  have hlength : (tokens.filter (·.kind ≠ .newline)).length ≤ tokens.length :=
    List.length_filter_le _ _
  let start : Parse.State := { rest := tokens, file }
  have hstart : start.Up (tokens.filter (·.kind ≠ .newline) ++ []) 0 0 :=
    ⟨Nat.le_refl 0, (List.append_nil _).symm, rfl, rfl⟩
  unfold Parse.program Parse.programOf
  refine hstart.change.bind fun _ s hs => ?_
  change Parse.Yields ((do Parse.change (.function "echo"); pure ()) >>= _) s _
  rw [bind_assoc]
  refine hs.change.bind fun _ s hs => ?_
  rw [pure_bind]
  refine (h.climbs hs (by simpa using hlength) (Parse.loops_topLevel _) (by simp [Parse.Stops])
    (by simpa using hlength)).bind fun _ s hs => ?_
  refine hs.change.bind fun _ s hs => ?_
  refine Parse.ends_bind.2 (Parse.ends_modify.2 (Parse.Yields.pure ?_))
  have hpeak := hs.peak
  change s.peak = n
  omega

end Scopewise.Grammar
