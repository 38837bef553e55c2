import Scopewise.Proofs.Descent
import Scopewise.Proofs.Parse.Course
import Scopewise.Proofs.Parse.Monitor
import Scopewise.Proofs.Parse.ViableExpr

namespace Scopewise.Parse

open Token Descent

variable {α β : Type} {limit : Option Nat} {s t : State}

/-- What a parse at the state can refer to, and where its input ends. -/
def State.context (s : State) : Context where
  hasFunction := s.scopes.hasFunction
  hasVariable := s.scopes.hasVariable
  ending := ⟨s.line + (newlines s.rest).toUInt32, s.file⟩

namespace State.Onward

theorem context (h : s.Onward limit t) (hscopes : t.scopes = s.scopes) : t.context = s.context := by
  obtain ⟨passed, hrest, hline⟩ := h.passed
  unfold State.context
  rw [hscopes, h.file, hline, hrest, newlines_append, UInt32.add_assoc]
  congr 3
  exact (UInt32.ofNat_add _ _).symm

end State.Onward

theorem State.context_next {u : Token} {us : List Token} (h : s.pending = u :: us) :
    s.next.context = s.context :=
  (State.Onward.next h : s.Onward none _).context rfl

theorem State.context_skipNewlines (s : State) : s.skipNewlines.context = s.context :=
  (State.Onward.skip s : s.Onward none _).context rfl

/-- Where no token is left, the parse stands at the end of the input. -/
theorem State.position_of_rest_nil (h : s.rest = []) : s.position = s.context.ending := by
  unfold State.context
  rw [h]
  exact congrArg (Position.mk · _) (UInt32.add_zero _).symm

theorem State.position_of_pending_nil (h : s.pending = []) :
    s.skipNewlines.position = s.context.ending := by
  rw [State.position_of_rest_nil (State.rest_skipNewlines_of_pending_nil h),
    s.context_skipNewlines]

/-- `p` ends as the recursive descent does on the tokens that are not layout, unless it fails for
want of a level. -/
def Agrees (limit : Option Nat) (p : Parser α) (parser : Descent α) (s : State)
    (good : α → State → Prop) : Prop :=
  Ends p s
    (fun a t => t.context = s.context ∧ t.rest <:+ s.rest ∧
      parser.read s.pending = some (.ok a, t.pending) ∧ good a t)
    fun e t => (∃ bound ∈ limit, e.diagnostic.fault = .nestingTooDeep bound) ∨
      parser.read s.pending = some (.error e.diagnostic, t.pending)

namespace Agrees

variable {p : Parser α} {f : α → Parser β} {parser parser' : Descent α} {g : α → Descent β}
  {mid : α → State → Prop} {good : β → State → Prop} {u : Token} {us : List Token}

theorem mono {mid' : α → State → Prop} (h : Agrees limit p parser s mid)
    (hmid : ∀ a t, t.rest <:+ s.rest → mid a t → mid' a t) : Agrees limit p parser s mid' :=
  Ends.mono h (fun a t ha => ⟨ha.1, ha.2.1, ha.2.2.1, hmid a t ha.2.1 ha.2.2.2⟩) fun _ _ => id

theorem congr (h : Agrees limit p parser s mid)
    (hread : parser'.read s.pending = parser.read s.pending) : Agrees limit p parser' s mid := by
  unfold Agrees
  rw [hread]
  exact h

theorem bind (hp : Agrees limit p parser s mid)
    (hf : ∀ a t, t.context = s.context → t.rest <:+ s.rest → mid a t →
      Agrees limit (f a) (g a) t good) :
    Agrees limit (p >>= f) (parser >>= g) s good := by
  refine ends_bind.2 (Ends.mono hp ?_ ?_)
  · rintro a t ⟨hcontext, hst, hread, ha⟩
    have hbind : (parser >>= g).read s.pending = (g a).read t.pending := by
      rw [read_bind, hread]
      rfl
    rw [hbind]
    refine Ends.mono (hf a t hcontext hst ha) ?_ fun _ _ => id
    rintro b r ⟨hcontext', htr, hread', hb⟩
    exact ⟨hcontext'.trans hcontext, htr.trans hst, hread', hb⟩
  · rintro e t (hdeep | hread)
    · exact .inl hdeep
    · refine .inr ?_
      rw [read_bind, hread]
      rfl

theorem pure {a : α} (h : mid a s) : Agrees limit (Pure.pure a) (Pure.pure a) s mid :=
  ends_pure.2 ⟨rfl, List.suffix_rfl, rfl, h⟩

theorem failAt {fault : Fault} {position : Position} :
    Agrees limit (Parse.failAt fault position) (throw ⟨fault, position⟩) s mid :=
  ends_failAt.2 (.inr rfl)

/-- The descent has no layout to step over. -/
theorem peek {f : Option Token → Parser α}
    (h : Agrees limit (f s.pending.head?) parser s.skipNewlines mid) :
    Agrees limit (Parse.peek >>= f) parser s mid := by
  refine ends_bind.2 (ends_peek.2 ?_)
  unfold Agrees at h
  rw [s.context_skipNewlines, State.pending_skipNewlines] at h
  refine Ends.mono h ?_ fun _ _ => id
  rintro a t ⟨ht, hst, hread, ha⟩
  exact ⟨ht, hst.trans s.skipNewlines_suffix, hread, ha⟩

theorem peekKind {f : Option Kind → Parser α}
    (h : Agrees limit (f (s.pending.head?.map (·.kind))) parser s.skipNewlines mid) :
    Agrees limit (Parse.peekKind >>= f) parser s mid := by
  unfold Parse.peekKind
  rw [bind_assoc]
  exact peek h

theorem peekKind_ahead {f : Option Kind → Parser α} {g : Option Kind → Descent α}
    (h : ∀ kind?, kind? = s.skipNewlines.pending.head?.map (·.kind) →
      Agrees limit (f kind?) (g kind?) s.skipNewlines mid) :
    Agrees limit (Parse.peekKind >>= f) (ahead >>= g) s mid := by
  refine congr (peekKind (h _ ?_)) (read_ahead_bind g s.pending)
  rw [State.pending_skipNewlines]

theorem get {f : State → Parser α} (h : Agrees limit (f s) parser s mid) :
    Agrees limit (MonadState.get >>= f) parser s mid :=
  ends_bind.2 (ends_get.2 h)

theorem advance {f : Token → Parser β} {g : Unit → Descent β} (hpending : s.pending = u :: us)
    (h : Agrees limit (f u) (g ()) s.next good) :
    Agrees limit (Parse.advance >>= f) (skip >>= g) s good := by
  refine ends_bind.2 (ends_advance.2 ?_)
  have hcontext := State.context_next hpending
  have hread : (skip >>= g).read s.pending = (g ()).read s.next.pending := by
    rw [State.pending_next]
    rfl
  rw [hread, hpending]
  refine Ends.mono h ?_ fun _ _ => id
  rintro b t ⟨ht, hst, hread, hb⟩
  exact ⟨ht.trans hcontext, hst.trans s.next_suffix, hread, hb⟩

theorem discard_advance {f : Unit → Parser β} {g : Unit → Descent β}
    (hpending : s.pending = u :: us) (h : Agrees limit (f ()) (g ()) s.next good) :
    Agrees limit (discard Parse.advance >>= f) (skip >>= g) s good := by
  rw [discard_bind]
  exact advance hpending h

theorem unexpected (expected : String) (f : α → Parser β) :
    Agrees limit (Parse.unexpected expected >>= f) (lacking s.context expected) s good := by
  refine ends_bind.2 (ends_unexpected.2 ?_)
  unfold lacking
  rw [read_get_bind, State.pending_skipNewlines]
  cases hpending : s.pending with
  | nil =>
    rw [State.position_of_pending_nil hpending]
    exact .inr rfl
  | cons u us => exact .inr rfl

theorem expect {kind : Kind} {f : Token → Parser β} {g : Unit → Descent β}
    (hpending : s.pending = u :: us) (hkind : u.kind = kind)
    (h : Agrees limit (f u) (g ()) s.next good) :
    Agrees limit (Parse.expect kind >>= f) (skip >>= g) s good := by
  have hrun : (Parse.expect kind).run s = Parse.advance.run s := by
    apply run_eq_of_ends
    intro good bad
    unfold Parse.expect
    rw [ends_expectNamed, ends_advance, hpending]
    simp only [hkind, if_true]
  exact (ends_congr (run_bind_congr hrun f)).2 (advance hpending h)

theorem discard_expect {kind : Kind} {f : Unit → Parser β} {g : Unit → Descent β}
    (hpending : s.pending = u :: us) (hkind : u.kind = kind)
    (h : Agrees limit (f ()) (g ()) s.next good) :
    Agrees limit (discard (Parse.expect kind) >>= f) (skip >>= g) s good := by
  rw [discard_bind]
  exact expect hpending hkind h

theorem nested (h : Agrees limit p parser s.descend fun a t => mid a t.ascend) :
    Agrees limit (Parse.nested limit p) parser s mid := by
  cases limit with
  | none => exact ends_nested_none.2 h
  | some bound =>
    apply ends_nested.2
    split
    · exact h
    · exact .inl ⟨bound, rfl, rfl⟩

/-- What is known of where a parser ends can be added. -/
theorem proceeding {effect : Effect} (h : Agrees limit p parser s fun _ _ => True)
    (h' : Proceeds limit effect p s mid) : Agrees limit p parser s mid := by
  refine Ends.mono (Ends.and h h') ?_ fun _ _ he => he.1
  rintro a t ⟨⟨hcontext, hst, hread, -⟩, -, -, ha⟩
  exact ⟨hcontext, hst, hread, ha⟩

/-- What was run and what was read have the same outcome. -/
theorem read_eq (h : Agrees limit p parser s mid)
    (hdeep : ∀ bound ∈ limit, ¬TooDeep bound (p.run s)) :
    parser.read s.pending = some (outcome (p.run s), (ending (p.run s)).pending) := by
  unfold Agrees Ends at h
  cases hrun : p.run s with
  | ok a t =>
    rw [hrun] at h
    exact h.2.2.1
  | error e t =>
    rw [hrun] at h hdeep
    obtain ⟨bound, hbound, hfault⟩ | hread := h
    · obtain ⟨⟨fault, position⟩, depth⟩ := e
      obtain rfl : fault = .nestingTooDeep bound := hfault
      exact absurd ⟨position, depth, t, rfl⟩ (hdeep bound hbound)
    · exact hread

end Agrees

/-- The language with some bound on nesting or none. -/
def Rules.within (limit : Option Nat) : Rules :=
  { Rules.standard with limit }

section Expressions

variable {context : Context} {n fuel : Nat} {u : Token} {us : List Token}

/-- Expressions of at most `n` tokens are read by the functions of their levels. -/
def AgreesExpr (limit : Option Nat) (context : Context) (n fuel : Nat) : Prop :=
  ∀ ⦃s : State⦄ (floor : BindingPower), s.context = context → s.rest.length ≤ n →
    s.rest.length < fuel →
    Agrees limit (expression (.within limit) n floor) (stratum context fuel floor) s
      fun e t => Consumes s e t ∧ t.Below floor

section Operators

theorem agrees_binary (h : AgreesExpr limit context n fuel) {op : BinaryOp}
    (hs : s.context = context) (hn : s.rest.length ≤ n) (hfuel : s.rest.length < fuel)
    (hpending : s.pending = u :: us) (hop : u.kind = op.kind) (left : Expr)
    (power : BindingPower) :
    Agrees limit (binary (expression (.within limit) n) left power)
      (operation op left (stratum context fuel power)) s
      fun _ t => t.rest.length < s.rest.length ∧ t.Below power := by
  refine .advance hpending ?_
  have hlt := State.length_rest_next_lt hpending
  rw [hop, op.ofKind?_kind]
  refine (h power ((State.context_next hpending).trans hs) (by omega) (by omega)).bind ?_
  rintro e t - hst ⟨-, hbelow⟩
  exact .pure ⟨Nat.lt_of_le_of_lt hst.length_le hlt, hbelow⟩

theorem power?_of_additive {kind : Kind} {op : BinaryOp} (h : additive? kind = some op) :
    Rules.standard.power? kind = some .additive := by
  cases kind with
  | plus | dash => rfl
  | _ => cases h

theorem power?_of_multiplicative {kind : Kind} {op : BinaryOp}
    (h : multiplicative? kind = some op) : Rules.standard.power? kind = some .multiplicative := by
  cases kind with
  | star | slash => rfl
  | _ => cases h

/-- No operator of a level above the floor follows. -/
theorem State.Below.no_op {floor power : BindingPower} {op? : Kind → Option BinaryOp}
    (h : s.Below floor) (hfloor : ¬power ≤ floor)
    (hpower : ∀ {kind op}, op? kind = some op → Rules.standard.power? kind = some power) :
    (s.pending.head?.map (·.kind)).bind op? = none := by
  cases hop : (s.pending.head?.map (·.kind)).bind op? with
  | none => rfl
  | some op =>
    obtain ⟨kind, hkind, hop⟩ := Option.bind_eq_some_iff.1 hop
    obtain ⟨u, hu, rfl⟩ := Option.map_eq_some_iff.1 hkind
    exact absurd (h u hu power (hpower hop)) hfloor

theorem State.Below.no_factor {floor : BindingPower} (h : s.Below floor)
    (hfloor : ¬.multiplicative ≤ floor) :
    (s.pending.head?.map (·.kind)).bind multiplicative? = none :=
  h.no_op hfloor power?_of_multiplicative

theorem read_tail_of_below {floor : BindingPower} (h : s.Below floor) (factors terms : Nat)
    (left : Expr) :
    (tail context fuel (factors + 1) (terms + 1) floor left).read s.pending =
      (pure left : Descent Expr).read s.pending := by
  cases floor with
  | lowest =>
    have hterm := h.no_op (by decide) power?_of_additive
    rw [read_tail_lowest (h.no_factor (by decide)), read_chain_of_none hterm]
  | additive => exact read_chain_of_none (h.no_factor (by decide))
  | multiplicative | unary => rfl

/-- The next token is an operator above `floor` or it is not. -/
theorem State.below_or_op (s : State) (floor : BindingPower) :
    s.Below floor ∨ ∃ (op : BinaryOp) (u : Token) (us : List Token),
      s.pending = u :: us ∧ u.kind = op.kind ∧ ¬op.level.power ≤ floor := by
  refine or_iff_not_imp_left.2 fun h => ?_
  unfold State.Below at h
  simp only [not_forall] at h
  obtain ⟨u, hu, power, hpower, hfloor⟩ := h
  obtain ⟨op, hop, rfl⟩ := exists_op_of_power? hpower
  obtain ⟨us, hpending⟩ := List.head?_eq_some_iff.1 hu
  exact ⟨op, u, us, hpending, hop, hfloor⟩

theorem agrees_operators_of_below {subs : BindingPower → Parser Expr} {floor : BindingPower}
    (hbelow : s.Below floor) (m factors terms : Nat) (left : Expr) :
    Agrees limit (operators (.within limit) subs floor m left)
      (tail context fuel (factors + 1) (terms + 1) floor left) s fun _ t => t.Below floor := by
  refine Agrees.congr ?_ (read_tail_of_below hbelow factors terms left)
  cases m with
  | zero => exact .pure hbelow
  | succ m =>
    refine .peekKind ?_
    have hbelow' : s.skipNewlines.Below floor := by
      unfold State.Below
      rwa [State.pending_skipNewlines]
    split
    · exact .pure hbelow'
    · next power hpower =>
      obtain ⟨kind, hkind, hpower⟩ := Option.bind_eq_some_iff.1 hpower
      obtain ⟨u, hu, rfl⟩ := Option.map_eq_some_iff.1 hkind
      rw [if_pos (hbelow u hu power hpower)]
      exact .pure hbelow'

/-- The loop takes an operator above the floor. -/
theorem agrees_operators_of_op {subs : BindingPower → Parser Expr} {floor : BindingPower}
    {op : BinaryOp} {parser : Descent Expr} {good : Expr → State → Prop} {m : Nat} {left : Expr}
    (hkind : s.pending.head?.map (·.kind) = some op.kind) (hfloor : ¬op.level.power ≤ floor)
    (h : Agrees limit (binary subs left op.level.power >>= operators (.within limit) subs floor m)
      parser s.skipNewlines good) :
    Agrees limit (operators (.within limit) subs floor (m + 1) left) parser s good := by
  refine .peekKind ?_
  have hpower : (s.pending.head?.map (·.kind)).bind (Rules.within limit).power? =
      some op.level.power := by
    rw [hkind]
    exact Grammar.power?_kind op
  rw [hpower]
  dsimp only
  rw [if_neg hfloor]
  exact h

theorem additive_or_multiplicative (op : BinaryOp) :
    (op.level.power = .additive ∧ additive? op.kind = some op ∧ multiplicative? op.kind = none) ∨
      op.level.power = .multiplicative ∧ multiplicative? op.kind = some op := by
  cases op <;> decide

theorem eq_lowest_of_not_additive_le {floor : BindingPower} (h : ¬.additive ≤ floor) :
    floor = .lowest := by
  cases floor with
  | lowest => rfl
  | _ => exact absurd (by decide) h

/-- The loop over operators goes on where the chains of the levels go on. -/
theorem agrees_operators (h : AgreesExpr limit context n fuel) (floor : BindingPower)
    (m factors terms : Nat) (left : Expr) (hs : s.context = context) (hn : s.rest.length ≤ n)
    (hfuel : s.rest.length < fuel) (hm : s.rest.length ≤ m) (hfactors : s.rest.length ≤ factors)
    (hterms : s.rest.length ≤ terms) :
    Agrees limit (operators (.within limit) (expression (.within limit) n) floor m left)
      (tail context fuel (factors + 1) (terms + 1) floor left) s fun _ t => t.Below floor := by
  induction m generalizing s left factors terms with
  | zero =>
    have hrest : s.rest = [] := List.eq_nil_of_length_eq_zero (Nat.le_zero.1 hm)
    refine agrees_operators_of_below ?_ 0 factors terms left
    intro u hu
    rw [State.pending, hrest] at hu
    cases hu
  | succ m ih =>
    obtain hbelow | ⟨op, u, us, hpending, hop, hfloor⟩ := s.below_or_op floor
    · exact agrees_operators_of_below hbelow _ factors terms left
    have hlt := State.length_rest_next_lt hpending
    have hcontext := s.context_skipNewlines.trans hs
    have hle := s.skipNewlines_suffix.length_le
    rw [← s.pending_skipNewlines] at hpending
    have hbinary := agrees_binary h hcontext (by omega) (by omega) hpending hop left op.level.power
    have hkind : s.skipNewlines.pending.head?.map (·.kind) = some op.kind := by
      rw [hpending, ← hop]
      rfl
    refine agrees_operators_of_op (s.pending_skipNewlines ▸ hkind) hfloor ?_
    obtain ⟨hlevel, hop, hfactor⟩ | ⟨hlevel, hop⟩ := additive_or_multiplicative op
    · -- only the lowest floor is below a sign, and behind the term no factor can follow
      rw [hlevel] at hbinary hfloor ⊢
      obtain rfl := eq_lowest_of_not_additive_le hfloor
      obtain ⟨terms, rfl⟩ := Nat.exists_eq_add_one_of_ne_zero (show terms ≠ 0 by omega)
      have hread : (tail context fuel (factors + 1) (terms + 2) .lowest left).read
          s.skipNewlines.pending = (operation op left (term context fuel) >>=
            chain additive? (term context fuel) (terms + 1)).read s.skipNewlines.pending := by
        rw [read_tail_lowest (by rw [hkind]; exact hfactor),
          read_chain_of_some (by rw [hkind]; exact hop)]
      refine Agrees.congr (hbinary.bind ?_) hread
      rintro e t ht - ⟨hlt, hbelow⟩
      have hrest := ih factors terms e (ht.trans hcontext) (by omega) (by omega) (by omega)
        (by omega) (by omega)
      exact hrest.congr (read_tail_lowest (hbelow.no_factor (by decide))).symm
    · rw [hlevel] at hbinary hfloor ⊢
      obtain ⟨factors, rfl⟩ := Nat.exists_eq_add_one_of_ne_zero (show factors ≠ 0 by omega)
      refine Agrees.congr (hbinary.bind ?_)
        (read_tail_of_factor hfloor (by rw [hkind]; exact hop))
      rintro e t ht - ⟨hlt, -⟩
      exact ih factors terms e (ht.trans hcontext) (by omega) (by omega) (by omega) (by omega)
        (by omega)

end Operators

section Operands

theorem exists_pending {kind : Kind} (h : s.pending.head?.map (·.kind) = some kind) :
    ∃ u us, s.pending = u :: us ∧ u.kind = kind := by
  obtain ⟨u, hu, hkind⟩ := Option.map_eq_some_iff.1 h
  obtain ⟨us, hpending⟩ := List.head?_eq_some_iff.1 hu
  exact ⟨u, us, hpending, hkind⟩

theorem agrees_literal (hpending : s.pending = u :: us) (hkind : u.kind = .integer) :
    Agrees limit literal (Descent.literal u) s fun _ _ => True := by
  refine .expect hpending hkind ?_
  cases Text.readInt64? u.value with
  | some value => exact .pure trivial
  | none => exact .failAt

theorem agrees_signed (h : AgreesExpr limit context n fuel) {op : PrefixOp}
    (hs : s.context = context) (hn : s.rest.length ≤ n + 1) (hfuel : s.rest.length < fuel + 1)
    (hpending : s.pending = u :: us) (hop : PrefixOp.ofKind? u.kind = some op) :
    Agrees limit (signed (expression (.within limit) n)) (do
      skip
      return .unary op (← unary context fuel)) s fun _ _ => True := by
  have hlt := State.length_rest_next_lt hpending
  refine .advance hpending ?_
  rw [hop]
  refine (h .unary ((State.context_next hpending).trans hs) (by omega) (by omega)).bind ?_
  exact fun e t _ _ _ => .pure trivial

theorem agrees_group (h : AgreesExpr limit context n fuel) (hs : s.context = context)
    (hn : s.rest.length ≤ n + 1) (hfuel : s.rest.length < fuel + 1)
    (hpending : s.pending = u :: us) (hkind : u.kind = .openParen) :
    Agrees limit (group (expression (.within limit) n .lowest))
      (Descent.group context (sum context fuel)) s fun _ _ => True := by
  have hlt := State.length_rest_next_lt hpending
  have hnext := (State.context_next hpending).trans hs
  refine .discard_expect hpending hkind ?_
  refine (h .lowest hnext (by omega) (by omega)).bind fun e t ht _ _ => ?_
  unfold expect expectNamed
  rw [discard_bind, bind_assoc]
  refine .peekKind_ahead fun kind? hkind => ?_
  have hcontext := (t.context_skipNewlines.trans ht).trans hnext
  split
  · next hclose =>
    obtain ⟨u, us, hpending, -⟩ := exists_pending (hkind.symm.trans hclose)
    exact .advance hpending (.pure trivial)
  · exact hcontext ▸ .unexpected _ _

theorem agrees_argumentList (h : AgreesExpr limit context n fuel) (m count : Nat)
    (hs : s.context = context) (hn : s.rest.length ≤ n) (hfuel : s.rest.length < fuel)
    (hm : s.rest.length ≤ m) (hcount : s.rest.length ≤ count) :
    Agrees limit (argumentList (expression (.within limit) n .lowest) m)
      (Descent.argumentList context (sum context fuel) (count + 1)) s fun _ _ => True := by
  induction m generalizing s count with
  | zero =>
    unfold argumentList Descent.argumentList
    rw [discard_bind]
    refine (h .lowest hs hn hfuel).bind fun e t _ hst ht => ?_
    have hlt := ht.1.length_lt hst
    omega
  | succ m ih =>
    unfold argumentList separated Descent.argumentList
    refine (h .lowest hs hn hfuel).bind fun first t ht hst _ => ?_
    have hle := hst.length_le
    refine .peekKind_ahead fun kind? hkind => ?_
    have hcontext := (t.context_skipNewlines.trans ht).trans hs
    have hle' := t.skipNewlines_suffix.length_le
    have hunexpected : Agrees (α := List Expr) limit (unexpected "',' or ')'")
        (lacking context "',' or ')'") t.skipNewlines fun _ _ => True := by
      rw [← bind_pure (unexpected _)]
      exact hcontext ▸ .unexpected _ _
    cases kind? with
    | none => exact hunexpected
    | some kind =>
      obtain ⟨u, us, hpending, -⟩ := exists_pending hkind.symm
      have hlt := State.length_rest_next_lt hpending
      have hnext := (State.context_next hpending).trans hcontext
      cases kind with
      | comma =>
        obtain ⟨count, rfl⟩ := Nat.exists_eq_add_one_of_ne_zero (show count ≠ 0 by omega)
        refine .discard_advance hpending ?_
        refine (ih count hnext (by omega) (by omega) (by omega) (by omega)).bind ?_
        exact fun _ _ _ _ _ => .pure trivial
      | closeParen => exact .discard_advance hpending (.pure trivial)
      | _ => exact hunexpected

theorem agrees_arguments (h : AgreesExpr limit context n fuel) (hs : s.context = context)
    (hn : s.rest.length ≤ n + 1) (hfuel : s.rest.length < fuel + 1)
    (hpending : s.pending = u :: us) (hkind : u.kind = .openParen) :
    Agrees limit (arguments n (expression (.within limit) n .lowest))
      (do skip; Descent.arguments context fuel (sum context fuel)) s fun _ _ => True := by
  have hlt := State.length_rest_next_lt hpending
  refine .discard_expect hpending hkind (.peekKind_ahead fun kind? hkind => ?_)
  have hcontext := (s.next.context_skipNewlines.trans (State.context_next hpending)).trans hs
  have hle := s.next.skipNewlines_suffix.length_le
  split
  · next hclose =>
    obtain ⟨u, us, hpending, -⟩ := exists_pending (hkind.symm.trans hclose)
    exact .discard_advance hpending (.pure trivial)
  · obtain ⟨count, rfl⟩ := Nat.exists_eq_add_one_of_ne_zero (show fuel ≠ 0 by omega)
    exact agrees_argumentList h n count hcontext (by omega) (by omega) (by omega) (by omega)

theorem agrees_reference (h : AgreesExpr limit context n fuel) (hs : s.context = context)
    (hn : s.rest.length ≤ n + 1) (hfuel : s.rest.length < fuel + 1)
    (hpending : s.pending = u :: us) (hkind : u.kind = .identifier) :
    Agrees limit (reference n (expression (.within limit) n .lowest))
      (Descent.name context fuel (sum context fuel) u) s fun _ _ => True := by
  have hlt := State.length_rest_next_lt hpending
  refine .expect hpending hkind (.peekKind_ahead fun kind? hkind => ?_)
  have hle := s.next.skipNewlines_suffix.length_le
  have hcontext := (s.next.context_skipNewlines.trans (State.context_next hpending)).trans hs
  have hfunction : s.next.skipNewlines.scopes.hasFunction = context.hasFunction :=
    congrArg Context.hasFunction hcontext
  have hvariable : s.next.skipNewlines.scopes.hasVariable = context.hasVariable :=
    congrArg Context.hasVariable hcontext
  split
  · next hopen =>
    obtain ⟨v, vs, hpending', hkind'⟩ := exists_pending (hkind.symm.trans hopen)
    refine .get ?_
    rw [hfunction]
    split
    · have harguments := agrees_arguments h hcontext (by omega) (by omega) hpending' hkind'
      rw [← bind_assoc]
      exact harguments.bind fun _ _ _ _ _ => .pure trivial
    · exact .failAt
  · refine .get ?_
    rw [hvariable]
    split
    · exact .pure trivial
    · exact .failAt

theorem agrees_operand (h : AgreesExpr limit context n fuel) (hs : s.context = context)
    (hn : s.rest.length ≤ n + 1) (hfuel : s.rest.length < fuel + 1) :
    Agrees limit (operand (.within limit) n (expression (.within limit) n))
      (unary context (fuel + 1)) s (Consumes s) := by
  have hproceeds : Proceeds limit .none (operand (.within limit) n (expression (.within limit) n))
      s (Consumes s) :=
    proceeds_operand (proceeds_expression (.within limit) n) n
  refine Agrees.proceeding (.peek ?_) hproceeds
  have hcontext := s.context_skipNewlines.trans hs
  have hle := s.skipNewlines_suffix.length_le
  cases hpending : s.pending with
  | nil =>
    refine ends_failHere.2 (.inr ?_)
    rw [State.position_of_pending_nil hpending, hs, State.pending_skipNewlines, hpending,
      read_unary_nil]
  | cons u us =>
    have hpending' := s.pending_skipNewlines.trans hpending
    obtain ⟨kind, value, position⟩ := u
    have hprimary (hkind : sign? kind = none) :
        (unary context (fuel + 1)).read s.skipNewlines.pending =
          (primary context fuel (sum context fuel)).read s.skipNewlines.pending := by
      rw [hpending']
      exact read_unary_of_none hkind
    cases kind with
    | integer =>
      refine (agrees_literal hpending' rfl).congr ((hprimary rfl).trans ?_)
      rw [hpending']
      rfl
    | identifier =>
      refine (agrees_reference h hcontext (by omega) (by omega) hpending' rfl).congr
        ((hprimary rfl).trans ?_)
      rw [hpending']
      rfl
    | openParen =>
      refine (agrees_group h hcontext (by omega) (by omega) hpending' rfl).congr
        ((hprimary rfl).trans ?_)
      rw [hpending']
      rfl
    | plus | dash =>
      refine (agrees_signed h hcontext (by omega) (by omega) hpending' rfl).congr ?_
      rw [hpending', read_unary_of_sign rfl]
    | _ =>
      refine Agrees.failAt.congr ((hprimary rfl).trans ?_)
      rw [hpending']
      rfl

end Operands

theorem agreesExpr (limit : Option Nat) (context : Context) (n fuel : Nat) :
    AgreesExpr limit context n fuel := by
  induction n generalizing fuel with
  | zero =>
    intro s floor hs hn hfuel
    obtain ⟨fuel, rfl⟩ := Nat.exists_eq_add_one_of_ne_zero (show fuel ≠ 0 by omega)
    have hrest : s.rest = [] := List.eq_nil_of_length_eq_zero (Nat.le_zero.1 hn)
    have hpending : s.descend.pending = [] := by
      rw [State.pending_descend, State.pending, hrest]
      rfl
    have hposition : s.descend.position = context.ending := by
      rw [← hs]
      exact State.position_of_rest_nil hrest
    rw [stratum_eq]
    refine .nested (ends_failHere.2 (.inr ?_))
    rw [hpending, hposition, read_bind, read_unary_nil]
    rfl
  | succ n ih =>
    intro s floor hs hn hfuel
    obtain ⟨fuel, rfl⟩ := Nat.exists_eq_add_one_of_ne_zero (show fuel ≠ 0 by omega)
    have hs' : s.descend.context = context := hs
    rw [stratum_eq]
    refine .nested ((agrees_operand (ih fuel) hs' hn hfuel).bind fun left t ht hst htaken => ?_)
    have hlt : t.rest.length < s.rest.length := htaken.length_lt hst
    refine (agrees_operators (ih (fuel + 1)) floor n fuel fuel left (ht.trans hs') (by omega)
      (by omega) (by omega) (by omega) (by omega)).mono ?_
    intro e r htr hbelow
    exact ⟨(htaken.after htr : Consumes s.descend e r), hbelow⟩

end Expressions

/-- An expression above a binding power is what the function of its level reads from the tokens that
are not layout: the same tree or the same fault at the same place, and the same tokens are left.
Only where a level is wanting do the two part, and never without a bound on nesting. -/
theorem expression_stratified (s : State) (n fuel : Nat) (floor : BindingPower)
    (hn : s.rest.length ≤ n) (hfuel : s.rest.length < fuel) :
    let result := (expression .standard n floor).run s
    let free := (expression .unlimited n floor).run s
    (¬TooDeep Rules.maxNesting result → (stratum s.context fuel floor).read s.pending =
      some (outcome result, (ending result).pending)) ∧
    (stratum s.context fuel floor).read s.pending =
      some (outcome free, (ending free).pending) := by
  intro result free
  have hresult : Agrees (some Rules.maxNesting) (expression .standard n floor)
      (stratum s.context fuel floor) s _ := agreesExpr _ _ n fuel floor rfl hn hfuel
  have hfree : Agrees none (expression .unlimited n floor) (stratum s.context fuel floor) s _ :=
    agreesExpr _ _ n fuel floor rfl hn hfuel
  refine ⟨fun hdeep => hresult.read_eq ?_, hfree.read_eq ?_⟩
  · rintro bound ⟨⟩
    exact hdeep
  · rintro bound ⟨⟩

/-- `1 - - x * 2` and, in the next line, `+ f(3) )`: the last parenthesis is left. -/
theorem expression_stratified_sum :
    let token (kind : Kind) (value : String) : Token := ⟨kind, value, 1, "f"⟩
    let close := token .closeParen ")"
    let tokens := [token .integer "1", token .dash "-", token .dash "-", token .identifier "x",
      token .star "*", token .integer "2", token .newline "\n", token .plus "+",
      token .identifier "f", token .openParen "(", token .integer "3", close, close]
    let scope := (({} : Scope).declareVariable "x" .mutable).declareFunction "f"
    let s : State := { rest := tokens, file := "f", scopes := ⟨[scope]⟩ }
    let tree : Expr := .binary .add
      (.binary .subtract (.integer 1)
        (.binary .multiply (.unary .minus (.variable "x")) (.integer 2)))
      (.call "f" [.integer 3])
    tokens.length ≤ 13 ∧ tokens.length < 14 ∧
      ¬TooDeep Rules.maxNesting ((expression .standard 13 .lowest).run s) ∧
      (Descent.sum s.context 14).read s.pending = some (.ok tree, [close]) := by
  intro token close tokens scope s tree
  have hn : tokens.length ≤ 13 := by decide
  have hfuel : tokens.length < 14 := by decide
  have houtcome : outcome ((expression .standard 13 .lowest).run s) = .ok tree := by
    decide +kernel
  have hdeep : ¬TooDeep Rules.maxNesting ((expression .standard 13 .lowest).run s) := by
    rintro ⟨position, depth, t, hrun⟩
    rw [hrun] at houtcome
    cases houtcome
  refine ⟨hn, hfuel, hdeep, ?_⟩
  refine ((expression_stratified s 13 14 .lowest hn hfuel).1 hdeep).trans ?_
  rw [houtcome]
  decide +kernel

end Scopewise.Parse
