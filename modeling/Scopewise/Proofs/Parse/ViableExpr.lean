import Scopewise.Proofs.Parse.AnswerExpr

namespace Scopewise.Parse

open Grammar Scope

/-- The input ended, and not where all levels of nesting were open. -/
def Failure.Short (e : Failure) : Prop :=
  (∃ expected, e.diagnostic.fault = .unexpectedEnd expected) ∧ e.depth < Rules.maxNesting

/-- Tokens that can be read, each text with the chain in force behind it. -/
def Language := List Token → Chain → Prop

namespace Language

/-- What can be read behind `us`. -/
def after (lang : Language) (us : List Token) : Language :=
  fun vs c => lang (us ++ vs) c

/-- Something can be read. -/
def Opens (lang : Language) : Prop :=
  ∃ us c, lang us c

variable {lang : Language} {us vs : List Token}

theorem after_append : lang.after (us ++ vs) = (lang.after us).after vs := by
  funext ws c
  unfold after
  rw [List.append_assoc]

theorem Opens.of_after (h : (lang.after us).Opens) : lang.Opens := by
  obtain ⟨vs, c, h⟩ := h
  exact ⟨us ++ vs, c, h⟩

end Language

variable {α β : Type} {s t r : State} {us vs : List Token} {chain : Chain} {depth : Nat}

/-- The parse went from `s` to `t` over tokens of the language. -/
def Reaches (s : State) (lang : Language) (t : State) : Prop :=
  ∃ us c, Took s us t ∧ Follows t.scopes.scopes c ∧ lang us c

/-- If the input was only too short, the tokens ahead of `s` begin a text of the language. -/
def Completes (depth : Nat) (s : State) (lang : Language) (e : Failure) : Prop :=
  e.Short → depth < Rules.maxNesting ∧ (lang.after s.pending).Opens

/-- From `s`, with the names of `chain` in force, `p` reads a text of the language or fails where
one could still have come. -/
def Viable (chain : Chain) (depth : Nat) (p : Parser α) (s : State) (lang : Language)
    (good : State → Prop) : Prop :=
  Follows s.scopes.scopes chain → s.depth = depth →
    Ends p s (fun _ t => Reaches s lang t ∧ good t) fun e _ => Completes depth s lang e

theorem not_short {fault : Fault} {position : Position}
    (h : ∀ expected, fault ≠ .unexpectedEnd expected) :
    ¬Failure.Short ⟨⟨fault, position⟩, depth⟩ :=
  fun hshort => hshort.1.elim h

theorem completes_of_opens {lang : Language} {e : Failure} (hnil : s.pending = [])
    (hdepth : e.depth = depth) (hopen : depth < Rules.maxNesting → lang.Opens) :
    Completes depth s lang e := by
  intro hshort
  have hlt : depth < Rules.maxNesting := hdepth ▸ hshort.2
  rw [hnil]
  exact ⟨hlt, hopen hlt⟩

namespace Viable

variable {p : Parser α} {f : α → Parser β} {lang first : Language} {good mid : State → Prop}

theorem mono {lang' : Language} {good' : State → Prop} (h : Viable chain depth p s lang good)
    (hlang : ∀ us c, lang us c → lang' us c) (hgood : ∀ t, good t → good' t) :
    Viable chain depth p s lang' good' := by
  intro hfollows hdepth
  refine Ends.mono (h hfollows hdepth) ?_ ?_
  · rintro a t ⟨⟨us, c, htook, hc, hus⟩, ht⟩
    exact ⟨⟨us, c, htook, hc, hlang us c hus⟩, hgood t ht⟩
  · intro e t he hshort
    obtain ⟨hlt, vs, c, hvs⟩ := he hshort
    exact ⟨hlt, vs, c, hlang _ c hvs⟩

/-- What is read behind `us` is read, with `us`, from where `us` began. -/
theorem behind {c : Chain} (htook : Took s us t) (h : Viable c depth p t (lang.after us) good)
    (hc : Follows t.scopes.scopes c) (hdepth : s.depth = depth) :
    Ends p t (fun _ r => Reaches s lang r ∧ good r) fun e _ => Completes depth s lang e := by
  refine Ends.mono (h hc (htook.depth.trans hdepth)) ?_ ?_
  · rintro a r ⟨⟨vs, c', htook', hc', hvs⟩, hr⟩
    exact ⟨⟨us ++ vs, c', htook.trans htook', hc', hvs⟩, hr⟩
  · intro e r he hshort
    obtain ⟨hlt, hopens⟩ := he hshort
    rw [← Language.after_append, ← htook.pending] at hopens
    exact ⟨hlt, hopens⟩

/-- One construct behind another. If the first is cut off, it is completed, and then the whole. -/
theorem bind (hp : Viable chain depth p s first mid)
    (hlive : depth < Rules.maxNesting → ∀ us c, first us c → (lang.after us).Opens)
    (hf : ∀ a t us c, Took s us t → first us c → mid t →
      Viable c depth (f a) t (lang.after us) good) :
    Viable chain depth (p >>= f) s lang good := by
  intro hfollows hdepth
  refine ends_bind.2 (Ends.mono (hp hfollows hdepth) ?_ ?_)
  · rintro a t ⟨⟨us, c, htook, hc, hus⟩, ht⟩
    exact behind htook (hf a t us c htook hus ht) hc hdepth
  · intro e t he hshort
    obtain ⟨hlt, vs, c, hvs⟩ := he hshort
    have hopens := hlive hlt _ c hvs
    rw [Language.after_append] at hopens
    exact ⟨hlt, hopens.of_after⟩

/-- A construct that ends with another one. -/
theorem last {g : α → β} (hp : Viable chain depth p s first good)
    (hlang : ∀ us c, first us c → lang us c) :
    Viable chain depth (p >>= fun a => Pure.pure (g a)) s lang good := by
  intro hfollows hdepth
  refine ends_bind.2 (Ends.mono (mono hp hlang (fun _ => id) hfollows hdepth) ?_ fun _ _ => id)
  exact fun _ _ h => h

theorem pure {a : α} (hlang : lang [] chain) (hgood : good s) :
    Viable chain depth (Pure.pure a) s lang good :=
  fun hfollows _ => ends_pure.2 ⟨⟨[], chain, .refl s, hfollows, hlang⟩, hgood⟩

theorem failAt {fault : Fault} {position : Position}
    (h : ∀ expected, fault ≠ .unexpectedEnd expected) :
    Viable (α := α) chain depth (Parse.failAt fault position) s lang good :=
  fun _ _ => ends_failAt.2 fun hshort => absurd hshort (not_short h)

theorem failHere {fault : Fault} (h : ∀ expected, fault ≠ .unexpectedEnd expected) :
    Viable (α := α) chain depth (Parse.failHere fault) s lang good :=
  fun _ _ => ends_failHere.2 fun hshort => absurd hshort (not_short h)

theorem unexpectedToken {u : Token} :
    Viable (α := α) chain depth (Parse.unexpectedToken u) s lang good :=
  failAt nofun

theorem failEnd {fault : Fault} (hnil : s.pending = [])
    (hopen : depth < Rules.maxNesting → lang.Opens) :
    Viable (α := α) chain depth (Parse.failHere fault) s lang good :=
  fun _ hdepth => ends_failHere.2 (completes_of_opens hnil hdepth hopen)

theorem unexpected {expected : String} (hopen : depth < Rules.maxNesting → lang.Opens) :
    Viable (α := α) chain depth (Parse.unexpected expected) s lang good := by
  intro _ hdepth
  apply ends_unexpected.2
  cases h : s.pending with
  | nil => exact completes_of_opens h hdepth hopen
  | cons u us => exact fun hshort => absurd hshort (not_short nofun)

theorem get {f : State → Parser β}
    (hf : Follows s.scopes.scopes chain → Viable chain depth (f s) s lang good) :
    Viable chain depth (MonadState.get >>= f) s lang good :=
  fun hfollows hdepth => ends_bind.2 (ends_get.2 (hf hfollows hfollows hdepth))

theorem peek {f : Option Token → Parser β}
    (hf : ∀ t, Took s [] t → Viable chain depth (f t.pending.head?) t lang good) :
    Viable chain depth (Parse.peek >>= f) s lang good := by
  intro hfollows hdepth
  refine ends_bind.2 (ends_peek.2 ?_)
  rw [← State.pending_skipNewlines]
  exact behind (.skip s) (hf s.skipNewlines (.skip s)) hfollows hdepth

theorem peekKind {f : Option Token.Kind → Parser β}
    (hf : ∀ t, Took s [] t →
      Viable chain depth (f (t.pending.head?.map (·.kind))) t lang good) :
    Viable chain depth (Parse.peekKind >>= f) s lang good := by
  intro hfollows hdepth
  refine ends_bind.2 (ends_peekKind.2 ?_)
  rw [← State.pending_skipNewlines]
  exact behind (.skip s) (hf s.skipNewlines (.skip s)) hfollows hdepth

/-- A token that has been looked at before. -/
theorem advance {f : Token → Parser β} {u : Token} (hhead : s.pending.head? = some u)
    (hf : ∀ t, Took s [u] t → Viable chain depth (f u) t (lang.after [u]) good) :
    Viable chain depth (Parse.advance >>= f) s lang good := by
  intro hfollows hdepth
  refine ends_bind.2 (ends_advance.2 ?_)
  cases h : s.pending with
  | nil => simp [h] at hhead
  | cons v vs =>
    obtain rfl : v = u := by simpa [h] using hhead
    exact behind (.next h) (hf s.next (.next h)) hfollows hdepth

theorem expectNamed {f : Token → Parser β} {kind : Token.Kind} {expected : String}
    (hopen : depth < Rules.maxNesting → lang.Opens)
    (hf : ∀ u t, u.kind = kind → Took s [u] t →
      Viable chain depth (f u) t (lang.after [u]) good) :
    Viable chain depth (Parse.expectNamed kind expected >>= f) s lang good := by
  intro hfollows hdepth
  refine ends_bind.2 (ends_expectNamed.2 ?_)
  cases h : s.pending with
  | nil => exact completes_of_opens h hdepth hopen
  | cons u us =>
    by_cases hu : u.kind = kind
    · simp only [hu, if_true]
      exact behind (.next h) (hf u s.next hu (.next h)) hfollows hdepth
    · simp only [hu, if_false]
      exact fun hshort => absurd hshort (not_short nofun)

theorem expect {f : Token → Parser β} {kind : Token.Kind}
    (hopen : depth < Rules.maxNesting → lang.Opens)
    (hf : ∀ u t, u.kind = kind → Took s [u] t →
      Viable chain depth (f u) t (lang.after [u]) good) :
    Viable chain depth (Parse.expect kind >>= f) s lang good :=
  expectNamed hopen hf

theorem discard {p : Parser α} {f : Unit → Parser β}
    (h : Viable chain depth (p >>= fun _ => f ()) s lang good) :
    Viable chain depth (Functor.discard p >>= f) s lang good := by
  rw [discard_bind]
  exact h

/-- A level around `p` leaves one level less for what `p` reads. -/
theorem nested {good' : State → Prop}
    (h : depth < Rules.maxNesting → Viable chain (depth + 1) p s.descend lang good)
    (hgood : ∀ t, good t → good' t.ascend) :
    Viable chain depth (Parse.nested (some Rules.maxNesting) p) s lang good' := by
  intro hfollows hdepth
  apply ends_nested.2
  rw [hdepth]
  by_cases hlt : depth < Rules.maxNesting
  · rw [if_pos hlt]
    refine Ends.mono (h hlt hfollows (congrArg (· + 1) hdepth)) ?_ ?_
    · rintro a t ⟨⟨us, c, htook, hc, hus⟩, ht⟩
      exact ⟨⟨us, c, htook.ascend, hc, hus⟩, hgood t ht⟩
    · intro e t he hshort
      exact ⟨hlt, (he hshort).2⟩
  · rw [if_neg hlt]
    exact fun hshort => absurd hshort (not_short nofun)

end Viable

/-- An expression of the level in which nothing is violated, within the bound on nesting. -/
def Sense (chain : Chain) (depth : Nat) (level : Level) : Language := fun us c =>
  c = chain ∧ ∃ e n, Derives id level us e n ∧ depth + n ≤ Rules.maxNesting ∧
    e.violations id chain = []

/-- Arguments, and the parenthesis that closes them. -/
def SenseArguments (chain : Chain) (depth : Nat) : Language := fun us c =>
  c = chain ∧ ∃ es n, Arguments id us es n ∧ depth + n ≤ Rules.maxNesting ∧
    Phrase.violationsAll id chain es = []

/-- What follows the name of a call. -/
def SenseCall (chain : Chain) (depth : Nat) : Language := fun us c =>
  ∀ u : Token, u.kind = .identifier → chain.hasFunction u.value = true →
    Sense chain depth .primary (u :: us) c

section Sense

variable {level : Level} {c c' : Chain} {u : Token}

theorem sense_integer (hu : u.kind = .integer) (hvalue : (Text.readInt64? u.value).isSome = true)
    (hdepth : depth ≤ Rules.maxNesting) : Sense chain depth .primary [u] chain := by
  refine ⟨rfl, .integer u, 0, .integer hu, hdepth, ?_⟩
  rw [Phrase.violations]
  exact ensure_eq_nil_iff.2 hvalue

theorem sense_variable (hu : u.kind = .identifier) (hname : chain.hasVariable u.value = true)
    (hdepth : depth ≤ Rules.maxNesting) : Sense chain depth .primary [u] chain := by
  refine ⟨rfl, .variable u, 0, .variable hu, hdepth, ?_⟩
  rw [Phrase.violations]
  exact ensure_eq_nil_iff.2 hname

theorem senseCall_nil {l r : Token} (hl : l.kind = .openParen) (hr : r.kind = .closeParen)
    (hdepth : depth ≤ Rules.maxNesting) : SenseCall chain depth [l, r] chain := by
  intro u hu hname
  refine ⟨rfl, .call u [], 0, .callNil hu hl hr, hdepth, ?_⟩
  rw [Phrase.violations, Phrase.violationsAll, List.append_nil]
  exact ensure_eq_nil_iff.2 hname

theorem SenseArguments.call {l : Token} (hl : l.kind = .openParen)
    (h : SenseArguments chain depth us c) : SenseCall chain depth (l :: us) c := by
  intro u hu hname
  obtain ⟨rfl, es, n, hes, hdepth, hnil⟩ := h
  refine ⟨rfl, .call u es, n, .call hu hl hes, hdepth, ?_⟩
  rw [Phrase.violations, hnil, List.append_nil]
  exact ensure_eq_nil_iff.2 hname

theorem SenseArguments.last {r : Token} (h : Sense chain (depth + 1) .sum us c)
    (hr : r.kind = .closeParen) : SenseArguments chain depth (us ++ [r]) c := by
  obtain ⟨rfl, e, n, he, hdepth, hnil⟩ := h
  refine ⟨rfl, [e], n + 1, .last he hr, by omega, ?_⟩
  rw [Phrase.violationsAll, hnil, Phrase.violationsAll, List.append_nil]

theorem SenseArguments.cons {comma : Token} (h : Sense chain (depth + 1) .sum us c)
    (hcomma : comma.kind = .comma) (h' : SenseArguments chain depth vs c') :
    SenseArguments chain depth (us ++ comma :: vs) c' := by
  obtain ⟨rfl, e, n, he, hdepth, hnil⟩ := h
  obtain ⟨rfl, es, m, hes, hdepth', hnil'⟩ := h'
  refine ⟨rfl, e :: es, max (n + 1) m, .cons he hcomma hes, by omega, ?_⟩
  rw [Phrase.violationsAll, hnil, hnil', List.append_nil]

namespace Sense

theorem loosen (h : Sense chain depth level us c) (level' : Level)
    (hle : level'.rank ≤ level.rank) : Sense chain depth level' us c := by
  obtain ⟨hc, e, n, he, hrest⟩ := h
  exact ⟨hc, e, n, he.loosen level' hle, hrest⟩

theorem length_pos (h : Sense chain depth level us c) : 0 < us.length := by
  obtain ⟨-, e, n, he, -⟩ := h
  exact he.length_pos

theorem group {l r : Token} (hl : l.kind = .openParen) (h : Sense chain (depth + 1) .sum us c)
    (hr : r.kind = .closeParen) : Sense chain depth .primary (l :: us ++ [r]) c := by
  obtain ⟨hc, e, n, he, hdepth, hnil⟩ := h
  exact ⟨hc, e, n + 1, .group hl he hr, by omega, hnil⟩

theorem sign {op : PrefixOp} (hu : u.kind = op.kind) (h : Sense chain (depth + 1) .unary us c) :
    Sense chain depth .unary (u :: us) c := by
  obtain ⟨hc, e, n, he, hdepth, hnil⟩ := h
  refine ⟨hc, .unary op e, n + 1, .sign hu he, by omega, ?_⟩
  rw [Phrase.violations]
  exact hnil

theorem binary {op : BinaryOp} (h : Sense chain depth op.level us c) (hu : u.kind = op.kind)
    (h' : Sense chain (depth + 1) op.level.next vs c') :
    Sense chain depth op.level (us ++ u :: vs) c' := by
  obtain ⟨rfl, e, n, he, hdepth, hnil⟩ := h
  obtain ⟨rfl, e', m, he', hdepth', hnil'⟩ := h'
  refine ⟨rfl, .binary op e e', max n (m + 1), .binary rfl he hu he', by omega, ?_⟩
  rw [Phrase.violations, hnil, hnil', List.append_nil]

end Sense

/-- A token to complete a text with. -/
def completion (kind : Token.Kind) (text : String) : Token :=
  ⟨kind, text, 1, ""⟩

theorem kind_completion (kind : Token.Kind) (text : String) :
    (completion kind text).kind = kind :=
  rfl

/-- A literal completes whatever needs an expression. -/
theorem opens_sense (hdepth : depth ≤ Rules.maxNesting) (level : Level) :
    (Sense chain depth level).Opens := by
  have hone : Sense chain depth .primary [completion .integer "1"] chain :=
    sense_integer rfl rfl hdepth
  exact ⟨_, _, hone.loosen level (by cases level <;> decide)⟩

end Sense

/-- The level of the expressions whose operators all bind more tightly than `floor`. -/
def levelAbove : BindingPower → Level
  | .lowest => .sum
  | .additive => .term
  | .multiplicative | .unary => .unary

theorem rank_levelAbove_le {level : Level} {floor : BindingPower} (h : level.admits floor) :
    (levelAbove floor).rank ≤ level.rank := by
  revert h
  cases level <;> cases floor <;> simp [Level.admits, BindingPower.rank, levelAbove, Level.rank]

theorem levelAbove_power (op : BinaryOp) : levelAbove op.level.power = op.level.next := by
  cases op <;> rfl

theorem rank_level_le {op : BinaryOp} {level : Level} (h : op.level.power ≤ level.power) :
    op.level.rank ≤ level.rank := by
  revert h
  cases op <;> cases level <;> decide

theorem admits_of_not_power_le {op : BinaryOp} {floor : BindingPower}
    (h : ¬op.level.power ≤ floor) : op.level.admits floor := by
  have hlt : floor.rank < op.level.power.rank := Nat.not_le.1 h
  cases op <;> exact hlt

theorem exists_op_of_power? {kind : Token.Kind} {power : BindingPower}
    (h : Rules.standard.power? kind = some power) :
    ∃ op : BinaryOp, kind = op.kind ∧ power = op.level.power := by
  cases kind with
  | plus => exact ⟨.add, rfl, (Option.some.inj h).symm⟩
  | dash => exact ⟨.subtract, rfl, (Option.some.inj h).symm⟩
  | star => exact ⟨.multiply, rfl, (Option.some.inj h).symm⟩
  | slash => exact ⟨.divide, rfl, (Option.some.inj h).symm⟩
  | _ => cases h

/-- The next token is no operator above `power`. -/
def State.Below (t : State) (power : BindingPower) : Prop :=
  ∀ u ∈ t.pending.head?, ∀ p, Rules.standard.power? u.kind = some p → p ≤ power

variable {fuel : Nat}

/-- Expressions are viable with some fuel. -/
def ViableExpr (fuel : Nat) : Prop :=
  ∀ ⦃s : State⦄ ⦃chain : Chain⦄ ⦃depth : Nat⦄ ⦃floor : BindingPower⦄, s.pending.length ≤ fuel →
    Viable chain depth (expression .standard fuel floor) s
      (Sense chain (depth + 1) (levelAbove floor)) fun t => t.Below floor

theorem viable_argumentList (h : ViableExpr fuel) (m : Nat) (hs : s.pending.length ≤ fuel) :
    Viable chain depth (argumentList (expression .standard fuel .lowest) m) s
      (SenseArguments chain depth) fun _ => True := by
  have hclose {us : List Token} {c : Chain} (hus : Sense chain (depth + 1) .sum us c) :
      ((SenseArguments chain depth).after us).Opens :=
    ⟨[completion .closeParen ")"], c, .last hus rfl⟩
  induction m generalizing s with
  | zero =>
    refine .discard (.bind (h hs) (fun _ us c hus => hclose hus) ?_)
    intro _ t us c _ hus _
    exact .unexpected fun _ => hclose hus
  | succ m ih =>
    unfold argumentList separated
    refine .bind (h hs) (fun _ us c hus => hclose hus) fun first t us c htook hus _ => ?_
    refine .peekKind fun r hr => ?_
    have hlength := (htook.trans hr).length
    have hpos := hus.length_pos
    rw [List.append_nil] at hlength
    split
    · next hkind =>
      obtain ⟨u, hhead, hu⟩ := Option.map_eq_some_iff.1 hkind
      refine .discard (.advance hhead fun q hq => ?_)
      have hlength' := hq.length
      obtain rfl := hus.1
      refine .last (ih (by omega)) fun vs c' hvs => ?_
      exact SenseArguments.cons hus hu hvs
    · next hkind =>
      obtain ⟨u, hhead, hu⟩ := Option.map_eq_some_iff.1 hkind
      refine .discard (.advance hhead fun q hq => ?_)
      exact .pure (SenseArguments.last hus hu) trivial
    · exact .unexpected fun _ => hclose hus

theorem viable_literal (hdepth : depth ≤ Rules.maxNesting) :
    Viable chain depth literal s (Sense chain depth .primary) fun _ => True := by
  unfold literal
  refine .expect (fun _ => opens_sense hdepth _) fun u t hu _ => ?_
  split
  · next value hvalue =>
    exact .pure (sense_integer hu (by rw [hvalue]; rfl) hdepth) trivial
  · exact .failAt nofun

theorem viable_arguments (h : ViableExpr fuel) (hs : s.pending.length ≤ fuel)
    (hdepth : depth ≤ Rules.maxNesting) :
    Viable chain depth (arguments fuel (expression .standard fuel .lowest)) s
      (SenseCall chain depth) fun _ => True := by
  unfold arguments enclosed
  have hclose {l : Token} (hl : l.kind = .openParen) :
      ((SenseCall chain depth).after [l]).Opens :=
    ⟨[completion .closeParen ")"], chain, senseCall_nil hl rfl hdepth⟩
  have hopen : (SenseCall chain depth).Opens :=
    (hclose (l := completion .openParen "(") rfl).of_after
  refine .discard (.expect (fun _ => hopen) fun l t hl ht => ?_)
  refine .peekKind fun r hr => ?_
  have hlength := (ht.trans hr).length
  split
  · next hkind =>
    obtain ⟨u, hhead, hu⟩ := Option.map_eq_some_iff.1 hkind
    refine .discard (.advance hhead fun q hq => ?_)
    exact .pure (senseCall_nil hl hu hdepth) trivial
  · refine (viable_argumentList h fuel (by omega)).mono (fun us c hus => ?_) fun _ => id
    exact SenseArguments.call hl hus

theorem viable_reference (h : ViableExpr fuel) (hs : s.pending.length ≤ fuel + 1)
    (hdepth : depth ≤ Rules.maxNesting) :
    Viable chain depth (reference fuel (expression .standard fuel .lowest)) s
      (Sense chain depth .primary) fun _ => True := by
  unfold reference referenceOf
  refine .expect (fun _ => opens_sense hdepth _) fun u t hu ht => ?_
  refine .peekKind fun r hr => ?_
  have hlength := (ht.trans hr).length
  rw [List.length_append, List.length_singleton, List.length_nil] at hlength
  split
  · refine .get fun hfollows => ?_
    rw [hfollows.hasFunction]
    split
    · next hname =>
      refine .last (viable_arguments h (by omega) hdepth) fun us c hus => ?_
      exact hus u hu hname
    · exact .failAt nofun
  · refine .get fun hfollows => ?_
    rw [hfollows.hasVariable]
    split
    · next hname => exact .pure (sense_variable hu hname hdepth) trivial
    · exact .failAt nofun

theorem viable_signed {u : Token} (h : ViableExpr fuel) (hs : s.pending.length ≤ fuel + 1)
    (hhead : s.pending.head? = some u) :
    Viable chain depth (signed (expression .standard fuel)) s (Sense chain depth .unary)
      fun _ => True := by
  unfold signed signedOr
  refine .advance hhead fun t ht => ?_
  have hlength := ht.length
  rw [List.length_singleton] at hlength
  split
  · next op hop =>
    have hu : u.kind = op.kind := PrefixOp.kind_of_ofKind? hop
    refine .last ((h (by omega)).mono (fun _ _ => id) fun _ _ => trivial) fun us c hus => ?_
    exact hus.sign hu
  · exact .unexpectedToken

theorem viable_group (h : ViableExpr fuel) (hs : s.pending.length ≤ fuel + 1) :
    Viable chain depth (group (expression .standard fuel .lowest)) s
      (Sense chain depth .primary) fun _ => True := by
  unfold group
  refine .discard (.expect (fun hlt => opens_sense (Nat.le_of_lt hlt) _) fun l t hl ht => ?_)
  have hlength := ht.length
  rw [List.length_singleton] at hlength
  have hclose {us : List Token} {c : Chain} (hus : Sense chain (depth + 1) .sum us c) :
      (((Sense chain depth .primary).after [l]).after us).Opens :=
    ⟨[completion .closeParen ")"], c, hus.group hl rfl⟩
  refine .bind (h (by omega)) (fun _ us c hus => hclose hus) fun e r us c _ hus _ => ?_
  obtain rfl := hus.1
  refine .discard (.expect (fun _ => hclose hus) fun u q hu _ => ?_)
  exact .pure (hus.group hl hu) trivial

theorem viable_operand (h : ViableExpr fuel) (hs : s.pending.length ≤ fuel + 1)
    (hdepth : depth ≤ Rules.maxNesting) :
    Viable chain depth (operand .standard fuel (expression .standard fuel)) s
      (Sense chain depth .unary) fun _ => True := by
  have hloosen (us : List Token) (c : Chain) (hus : Sense chain depth .primary us c) :
      Sense chain depth .unary us c :=
    hus.loosen .unary (by decide)
  unfold operand operandOf
  refine .peek fun t ht => ?_
  have hlength : t.pending.length ≤ fuel + 1 := by
    have := ht.length
    rw [List.length_nil] at this
    omega
  split
  · next hhead => exact .failEnd (List.head?_eq_none_iff.1 hhead) fun _ => opens_sense hdepth _
  · next u hhead =>
    split
    · exact .unexpectedToken
    · next rule _ =>
      cases rule with
      | literal => exact (viable_literal hdepth).mono hloosen fun _ => id
      | name => exact (viable_reference h hlength hdepth).mono hloosen fun _ => id
      | sign => exact viable_signed h hlength hhead
      | group => exact (viable_group h hlength).mono hloosen fun _ => id

/-- What has been read is an expression of some level, and the next operator binds no more tightly
than that level: it takes all that has been read as its left operand. -/
theorem viable_operators (h : ViableExpr fuel) {level : Level} {floor : BindingPower} {left : Expr}
    {m : Nat} (hm : t.pending.length ≤ m) (ht : t.pending.length ≤ fuel)
    (hus : Sense chain depth level us chain) (hadmits : level.admits floor)
    (hbelow : t.Below level.power) :
    Viable chain depth (operators .standard (expression .standard fuel) floor m left) t
      ((Sense chain depth (levelAbove floor)).after us) fun r => r.Below floor := by
  -- the level of what was read so far changes from turn to turn
  induction m generalizing t level left us with
  | zero =>
    have hnil : t.pending = [] := List.eq_nil_of_length_eq_zero (Nat.le_zero.1 hm)
    refine .pure ?_ (by simp [State.Below, hnil])
    simpa [Language.after] using hus.loosen _ (rank_levelAbove_le hadmits)
  | succ m ih =>
    unfold operators climb
    refine .peekKind fun r hr => ?_
    have hpending : r.pending = t.pending := by simpa using hr.pending.symm
    rw [← hpending] at hm ht
    have hend : ((Sense chain depth (levelAbove floor)).after us) [] chain := by
      simpa [Language.after] using hus.loosen _ (rank_levelAbove_le hadmits)
    split
    · next hpower =>
      refine .pure hend fun u hu p hp => ?_
      rw [Option.mem_def] at hu
      rw [hu] at hpower
      exact absurd (hp.symm.trans hpower) (by simp)
    · next power hpower =>
      split
      · next hle =>
        refine .pure hend fun u hu p hp => ?_
        rw [Option.mem_def] at hu
        rw [hu] at hpower
        obtain rfl : p = power := Option.some.inj (hp.symm.trans hpower)
        exact hle
      · next hle =>
        obtain ⟨kind, hkind, hpower'⟩ := Option.bind_eq_some_iff.1 hpower
        obtain ⟨u, hhead, rfl⟩ := Option.map_eq_some_iff.1 hkind
        obtain ⟨op, hop, rfl⟩ := exists_op_of_power? hpower'
        have hleft : Sense chain depth op.level us chain := by
          apply hus.loosen _ (rank_level_le ?_)
          apply hbelow u (by rw [← hpending]; exact hhead)
          rw [hop, power?_kind]
        unfold binary binaryOr
        dsimp only
        rw [bind_assoc]
        refine .advance hhead fun q hq => ?_
        have hlength := hq.length
        rw [List.length_singleton] at hlength
        simp only [hop, BinaryOp.ofKind?_kind, bind_assoc, pure_bind]
        have hadmits' := admits_of_not_power_le hle
        have hbinary {vs : List Token} {c : Chain}
            (hvs : Sense chain (depth + 1) (levelAbove op.level.power) vs c) :
            Sense chain depth op.level (us ++ u :: vs) c := by
          rw [levelAbove_power] at hvs
          exact hleft.binary hop hvs
        refine .bind (h (by omega)) (fun _ vs c hvs => ?_) fun right x vs c hx hvs hbelow' => ?_
        · refine ⟨[], c, ?_⟩
          simpa [Language.after] using (hbinary hvs).loosen _ (rank_levelAbove_le hadmits')
        · obtain rfl := hvs.1
          have hlength' := hx.length
          rw [← Language.after_append, ← Language.after_append]
          exact ih (by omega) (by omega) (hbinary hvs) hadmits' hbelow'

theorem viableExpr (fuel : Nat) : ViableExpr fuel := by
  induction fuel with
  | zero =>
    intro s chain depth floor hs
    have hnil : s.pending = [] := List.eq_nil_of_length_eq_zero (Nat.le_zero.1 hs)
    refine .nested (fun hlt => ?_) fun _ => id
    exact .failEnd hnil fun _ => opens_sense hlt _
  | succ fuel ih =>
    intro s chain depth floor hs
    rw [expression_succ]
    refine .nested (fun hlt => ?_) fun _ => id
    have hs' : s.descend.pending.length ≤ fuel + 1 := hs
    refine .bind (viable_operand ih hs' hlt) (fun _ us c hus => ?_) fun left t us c ht hus _ => ?_
    · refine ⟨[], c, ?_⟩
      simpa [Language.after] using hus.loosen _ (rank_levelAbove_le trivial)
    · obtain rfl := hus.1
      have hlength := ht.length
      have hpos := hus.length_pos
      -- an operand holds together more tightly than any operator
      have hbelow : t.Below Level.unary.power := by
        intro u _ p _
        cases p <;> decide
      exact viable_operators ih (by omega) (by omega) hus trivial hbelow

end Scopewise.Parse
