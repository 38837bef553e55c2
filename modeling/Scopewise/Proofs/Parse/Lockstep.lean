import Scopewise.Proofs.Parse.Meter
import Scopewise.Proofs.Rename

namespace Scopewise

/-- The fault with the text of another token in place of its own. -/
def Fault.withText (text : String) : Fault → Fault
  | .unexpectedToken _ => .unexpectedToken text
  | .expectedToken expected _ => .expectedToken expected text
  | .integerOutOfRange _ => .integerOutOfRange text
  | .variableRedeclared _ => .variableRedeclared text
  | .variableUndeclared _ => .variableUndeclared text
  | .functionRedeclared _ => .functionRedeclared text
  | .functionUndeclared _ => .functionUndeclared text
  | .unknownReturnType _ => .unknownReturnType text
  | fault => fault

end Scopewise

namespace Scopewise.Parse

/-- What a parse has ahead, and where it stands. -/
def State.spot (s : State) : List Token × Position :=
  (s.rest, s.position)

/-- Names whose spelling decides how a program is read. -/
def reserved : List String :=
  ["fn", "let", "const", "return", "void", "int", "echo"]

theorem id_reserved : ∀ word ∈ reserved, id word = word :=
  fun _ _ => rfl

/-- `place` relates what is ahead of the two parses. It may end once a token is taken, with the
first parse at tokens that are `off`. -/
structure Coupling where
  name : String → String
  token : Token → Token → Prop
  place : List Token × Position → List Token × Position → Prop
  off : List Token → Prop
  alike : Diagnostic → Diagnostic → Prop
  name_injective : name.Injective
  name_reserved : ∀ word ∈ reserved, name word = word
  exists_token : ∀ t, ∃ t', token t t'
  kind_eq : ∀ {t t' : Token}, token t t' → t'.kind = t.kind
  value_eq : ∀ {t t' : Token}, token t t' →
    t'.value = if t.kind = .identifier then name t.value else t.value
  head : ∀ {s s' : State}, place s.spot s'.spot →
    Option.Rel token s.pending.head? s'.pending.head?
  skip : ∀ {s s' : State}, place s.spot s'.spot → place s.skipNewlines.spot s'.skipNewlines.spot
  next : ∀ {s s' : State}, place s.spot s'.spot →
    off s.next.rest ∨ place s.next.spot s'.next.spot
  off_of_suffix : ∀ {rest rest' : List Token}, rest' <:+ rest → off rest → off rest'
  here : ∀ {s s' : State} (fault : Fault), place s.spot s'.spot →
    alike ⟨fault, s.position⟩ ⟨fault, s'.position⟩
  there : ∀ {t t' : Token} (fault : Fault), token t t' →
    alike ⟨fault.withText t.value, t.position⟩ ⟨fault.withText t'.value, t'.position⟩

namespace Coupling

variable (c : Coupling) {t t' : Token}

theorem value_identifier (ht : c.token t t') (h : t.kind = .identifier) :
    t'.value = c.name t.value := by
  rw [c.value_eq ht, if_pos h]

theorem value_of_ne (ht : c.token t t') (h : t.kind ≠ .identifier) : t'.value = t.value := by
  rw [c.value_eq ht, if_neg h]

theorem name_eq_iff {word : String} (h : word ∈ reserved) (x : String) :
    c.name x = word ↔ x = word := by
  constructor
  · intro hx
    apply c.name_injective
    rw [hx, c.name_reserved word h]
  · rintro rfl
    exact c.name_reserved x h

theorem isWord_eq {word : String} (h : word ∈ reserved) (ht : c.token t t') :
    t'.isWord word = t.isWord word := by
  unfold Token.isWord
  by_cases hkind : t.kind = .identifier
  · rw [c.kind_eq ht, c.value_identifier ht hkind]
    simp only [c.name_eq_iff h]
  · simp [c.kind_eq ht, hkind]

/-- Looking up a name in a table of reserved words. -/
theorem lookup_name {α : Type} {entries : List (String × α)}
    (h : ∀ entry ∈ entries, entry.1 ∈ reserved) (x : String) :
    entries.lookup (c.name x) = entries.lookup x := by
  induction entries with
  | nil => rfl
  | cons entry entries ih =>
    have hentry : (c.name x == entry.1) = (x == entry.1) := by
      simp only [beq_eq_decide, c.name_eq_iff (h entry List.mem_cons_self)]
    rw [List.lookup_cons, List.lookup_cons, hentry,
      ih fun e he => h e (List.mem_cons_of_mem _ he)]

theorem stmt?_name (x : String) : Rules.standard.stmt? (c.name x) = Rules.standard.stmt? x := by
  apply c.lookup_name
  decide

theorem ofName?_name (x : String) : ReturnType.ofName? (c.name x) = ReturnType.ofName? x := by
  have hname : ∀ type : ReturnType, type.name = c.name x ↔ type.name = x := by
    intro type
    have htype : type.name ∈ reserved := by cases type <;> decide
    rw [eq_comm, c.name_eq_iff htype, eq_comm]
  simp only [ReturnType.ofName?, hname]

/-- The states have corresponding tokens ahead, names in scope and as many open levels. -/
structure Rel (s s' : State) : Prop where
  place : c.place s.spot s'.spot
  scopes : s.scopes.Renamed c.name s'.scopes
  depth : s'.depth = s.depth

variable {c} {s s' : State}

theorem Rel.skip (h : c.Rel s s') : c.Rel s.skipNewlines s'.skipNewlines :=
  ⟨c.skip h.place, h.scopes, h.depth⟩

theorem Rel.next (h : c.Rel s s') : c.off s.next.rest ∨ c.Rel s.next s'.next :=
  (c.next h.place).imp_right fun hplace => ⟨hplace, h.scopes, h.depth⟩

theorem Rel.descend (h : c.Rel s s') : c.Rel s.descend s'.descend :=
  ⟨h.place, h.scopes, congrArg (· + 1) h.depth⟩

theorem Rel.ascend (h : c.Rel s s') : c.Rel s.ascend s'.ascend :=
  ⟨h.place, h.scopes, congrArg (· - 1) h.depth⟩

end Coupling

variable {α α' β β' : Type} {c : Coupling}

/-- The parsers make the same moves on both sides. Every value of the first has one that corresponds
to it, and no parser goes back in the tokens. -/
structure Couples (c : Coupling) (R : α → α' → Prop) (p : Parser α) (p' : Parser α') : Prop where
  forward : ∀ s, Ends p s (fun a t => (∃ a', R a a') ∧ t.rest <:+ s.rest)
    fun _ t => t.rest <:+ s.rest
  together : ∀ {s s'}, c.Rel s s' →
    Ends p s
      (fun a t => c.off t.rest ∨
        Ends p' s' (fun a' t' => R a a' ∧ c.Rel t t') fun _ _ => False)
      fun e t => c.off t.rest ∨
        Ends p' s' (fun _ _ => False) fun e' _ => c.alike e.diagnostic e'.diagnostic

namespace Couples

variable {R : α → α' → Prop} {S : β → β' → Prop} {p : Parser α} {p' : Parser α'}

theorem pure {a : α} {a' : α'} (h : R a a') : Couples c R (Pure.pure a) (Pure.pure a') where
  forward _ := ends_pure.2 ⟨⟨a', h⟩, List.suffix_refl _⟩
  together hs := ends_pure.2 (.inr (ends_pure.2 ⟨h, hs⟩))

theorem bind {f : α → Parser β} {f' : α' → Parser β'} (hp : Couples c R p p')
    (hf : ∀ a a', R a a' → Couples c S (f a) (f' a')) : Couples c S (p >>= f) (p' >>= f') where
  forward s := by
    refine ends_bind.2 (Ends.mono (hp.forward s) ?_ fun _ _ => id)
    rintro a t ⟨⟨a', ha⟩, ht⟩
    refine Ends.mono ((hf a a' ha).forward t) ?_ ?_
    · intro b r hr
      exact ⟨hr.1, hr.2.trans ht⟩
    · intro e r hr
      exact hr.trans ht
  together {s s'} hs := by
    refine ends_bind.2 (Ends.mono ((hp.forward s).and (hp.together hs)) ?_ ?_)
    · rintro a t ⟨⟨⟨a', ha⟩, -⟩, hoff | hp'⟩
      -- the first parse is off already and does not go back
      · refine Ends.mono ((hf a a' ha).forward t) ?_ ?_
        · intro b r hr
          exact .inl (c.off_of_suffix hr.2 hoff)
        · intro e r hr
          exact .inl (c.off_of_suffix hr hoff)
      · obtain ⟨b, t', hrun, hb, ht⟩ := hp'.exists_ok
        refine Ends.mono ((hf a b hb).together ht) ?_ ?_
        · intro _ _ h
          exact h.imp_right (ends_bind_of_run hrun).2
        · intro _ _ h
          exact h.imp_right (ends_bind_of_run hrun).2
    · rintro e t ⟨-, h⟩
      refine h.imp_right fun hp' => ends_bind.2 ?_
      exact Ends.mono hp' (fun _ _ => False.elim) fun _ _ => id

theorem discard {f : Unit → Parser β} {f' : Unit → Parser β'} (hp : Couples c R p p')
    (hf : Couples c S (f ()) (f' ())) :
    Couples c S (Functor.discard p >>= f) (Functor.discard p' >>= f') := by
  rw [discard_bind, discard_bind]
  exact hp.bind fun _ _ _ => hf

theorem failAt {fault fault' : Fault} {position position' : Position}
    (h : c.alike ⟨fault, position⟩ ⟨fault', position'⟩) :
    Couples c R (Parse.failAt fault position) (Parse.failAt fault' position') where
  forward _ := ends_failAt.2 (List.suffix_refl _)
  together _ := ends_failAt.2 (.inr (ends_failAt.2 h))

theorem failHere (fault : Fault) : Couples c R (Parse.failHere fault) (Parse.failHere fault) where
  forward _ := ends_failHere.2 (List.suffix_refl _)
  together hs := ends_failHere.2 (.inr (ends_failHere.2 (c.here fault hs.place)))

/-- A question about a name in scope has the same answer on both sides. -/
theorem ask (has : Scope.Table → String → Bool)
    (hhas : ∀ table table', table.Renamed c.name table' → ∀ x, has table' (c.name x) = has table x)
    {x x' : String} (hx : x' = c.name x) {yes no : Parser α} {yes' no' : Parser α'}
    (hyes : Couples c R yes yes') (hno : Couples c R no no') :
    Couples c R (do if has (← get).scopes x = true then yes else no)
      (do if has (← get).scopes x' = true then yes' else no') where
  forward s := by
    refine ends_bind.2 (ends_get.2 ?_)
    split
    · exact hyes.forward s
    · exact hno.forward s
  together {s s'} hs := by
    refine ends_bind.2 (ends_get.2 ?_)
    simp only [ends_bind, ends_get, hx, hhas _ _ hs.scopes]
    split
    · exact hyes.together hs
    · exact hno.together hs

/-- Opening a level fails on both sides or on none. -/
theorem nested (limit : Nat) (h : Couples c R p p') :
    Couples c R (Parse.nested (some limit) p) (Parse.nested (some limit) p') where
  forward s := by
    apply ends_nested.2
    split
    · exact h.forward s.descend
    · exact List.suffix_refl _
  together {s s'} hs := by
    apply ends_nested.2
    simp only [ends_nested, hs.depth]
    split
    · refine Ends.mono (h.together hs.descend) ?_ ?_
      · intro a t ht
        refine ht.imp_right fun hp' => Ends.mono hp' ?_ fun _ _ => id
        exact fun a' t' ht' => ⟨ht'.1, ht'.2.ascend⟩
      · exact fun _ _ => id
    · exact .inr (c.here _ hs.place)

end Couples

section Moves

variable {R : α → α' → Prop}

theorem couples_peek : Couples c (Option.Rel c.token) peek peek where
  forward s := by
    refine ends_peek.2 ⟨?_, s.skipNewlines_suffix⟩
    cases s.pending.head? with
    | none => exact ⟨none, .none⟩
    | some t =>
      obtain ⟨t', ht⟩ := c.exists_token t
      exact ⟨some t', .some ht⟩
  together hs := ends_peek.2 (.inr (ends_peek.2 ⟨c.head hs.place, hs.skip⟩))

theorem couples_peekKind : Couples c Eq peekKind peekKind := by
  refine couples_peek.bind fun o o' ho => .pure ?_
  cases ho with
  | none => rfl
  | some ht => exact congrArg some (c.kind_eq ht).symm

theorem couples_advance : Couples c c.token advance advance where
  forward s := by
    apply ends_advance.2
    split
    · exact s.skipNewlines_suffix
    · exact ⟨c.exists_token _, s.next_suffix⟩
  together {s s'} hs := by
    apply ends_advance.2
    have hhead := c.head hs.place
    simp only [ends_advance]
    cases hpending : s.pending <;> cases hpending' : s'.pending <;>
      rw [hpending, hpending'] at hhead <;> cases hhead
    · exact .inr (c.here _ hs.skip.place)
    · next ht => exact hs.next.imp_right fun hnext => ⟨ht, hnext⟩

theorem couples_unexpectedToken {t t' : Token} (ht : c.token t t') :
    Couples c R (unexpectedToken t) (unexpectedToken t') :=
  .failAt (c.there (.unexpectedToken "") ht)

theorem couples_unexpected (expected : String) :
    Couples c R (unexpected expected) (unexpected expected) := by
  refine couples_peek.bind fun o o' ho => ?_
  cases ho with
  | none => exact .failHere _
  | some ht => exact .failAt (c.there (.expectedToken expected "") ht)

/-- What is taken is of the kind that was asked for. -/
theorem couples_expectNamed (kind : Token.Kind) (expected : String) :
    Couples c (fun t t' => t.kind = kind ∧ c.token t t') (expectNamed kind expected)
      (expectNamed kind expected) := by
  have h : Couples c c.token (expectNamed kind expected) (expectNamed kind expected) := by
    refine couples_peekKind.bind ?_
    rintro k _ rfl
    split
    · exact couples_advance
    · exact couples_unexpected expected
  have hkind : ∀ s, Ends (expectNamed kind expected) s (fun t _ => t.kind = kind)
      fun _ _ => True := by
    intro s
    apply ends_expectNamed.2
    cases s.pending with
    | nil => trivial
    | cons t ts =>
      change if t.kind = kind then _ else _
      split
      · next h => exact h
      · trivial
  constructor
  · intro s
    refine Ends.mono ((hkind s).and (h.forward s)) ?_ fun _ _ h => h.2
    rintro t r ⟨hk, -, hr⟩
    exact ⟨(c.exists_token t).imp fun _ ht => ⟨hk, ht⟩, hr⟩
  · intro s s' hs
    refine Ends.mono ((hkind s).and (h.together hs)) ?_ fun _ _ h => h.2
    rintro t r ⟨hk, hr⟩
    exact hr.imp_right fun hp' => Ends.mono hp' (fun _ _ ht => ⟨⟨hk, ht.1⟩, ht.2⟩) fun _ _ => id

theorem couples_expect (kind : Token.Kind) :
    Couples c (fun t t' => t.kind = kind ∧ c.token t t') (expect kind) (expect kind) :=
  couples_expectNamed kind kind.describe

theorem couples_change (ch : Scope.Change) :
    Couples c (fun _ _ => True) (change ch) (change (ch.rename c.name)) where
  forward s := by
    apply ends_change.2
    split
    · exact ⟨⟨(), trivial⟩, List.suffix_refl _⟩
    · exact List.suffix_refl _
  together {s s'} hs := by
    apply ends_change.2
    simp only [ends_change]
    have hafter := hs.scopes.after? c.name_injective ch
    revert hafter
    cases s.scopes.after? ch <;> cases s'.scopes.after? (ch.rename c.name) <;> rintro ⟨⟩
    · exact .inr (c.here _ hs.place)
    · next h => exact .inr ⟨trivial, hs.place, h, hs.depth⟩

end Moves

section Expressions

variable {sub : Parser Expr} {subs : BindingPower → Parser Expr}

/-- A parser of expressions, run on both sides. -/
abbrev CouplesExpr (c : Coupling) (p : Parser Expr) : Prop :=
  Couples c (Expr.rename c.name · = ·) p p

theorem couples_literal : CouplesExpr c literal := by
  refine (couples_expect .integer).bind ?_
  rintro t t' ⟨hkind, ht⟩
  have hread : Text.readInt64? t'.value = Text.readInt64? t.value := by
    rw [c.value_of_ne ht (by rw [hkind]; decide)]
  simp only [hread]
  cases Text.readInt64? t.value with
  | some value => exact .pure rfl
  | none => exact .failAt (c.there (.integerOutOfRange "") ht)

/-- A list is renamed element by element. -/
theorem couples_separated {α : Type} {rename : List α → List α} {first first' : α}
    {list : Parser (List α)} (h : Couples c (rename · = ·) list list)
    (hlast : rename [first] = [first'])
    (hcons : ∀ rest, rename (first :: rest) = first' :: rename rest) :
    Couples c (rename · = ·) (separated first list) (separated first' list) := by
  refine couples_peekKind.bind ?_
  rintro kind _ rfl
  split
  · refine couples_advance.discard (h.bind ?_)
    rintro rest _ rfl
    exact .pure (hcons rest)
  · exact couples_advance.discard (.pure hlast)
  · exact couples_unexpected _

theorem couples_enclosed {α : Type} {rename : List α → List α} {list : Parser (List α)}
    (h : Couples c (rename · = ·) list list) (hnil : rename [] = []) :
    Couples c (rename · = ·) (enclosed list) (enclosed list) := by
  refine (couples_expect .openParen).discard (couples_peekKind.bind ?_)
  rintro kind _ rfl
  split
  · exact couples_advance.discard (.pure hnil)
  · exact h

theorem couples_argumentList (h : CouplesExpr c sub) (n : Nat) :
    Couples c (Expr.renameAll c.name · = ·) (argumentList sub n) (argumentList sub n) := by
  induction n with
  | zero => exact h.discard (couples_unexpected _)
  | succ n ih =>
    refine h.bind ?_
    rintro first _ rfl
    exact couples_separated ih rfl fun _ => rfl

theorem couples_arguments (h : CouplesExpr c sub) (n : Nat) :
    Couples c (Expr.renameAll c.name · = ·) (arguments n sub) (arguments n sub) :=
  couples_enclosed (couples_argumentList h n) rfl

theorem couples_reference (h : CouplesExpr c sub) (n : Nat) :
    CouplesExpr c (reference n sub) := by
  refine (couples_expect .identifier).bind ?_
  rintro t t' ⟨hkind, ht⟩
  have hvalue := c.value_identifier ht hkind
  refine couples_peekKind.bind ?_
  rintro kind _ rfl
  split
  · refine .ask Scope.Table.hasFunction (fun _ _ h => h.hasFunction) hvalue ?_ ?_
    · refine (couples_arguments h n).bind ?_
      rintro args _ rfl
      rw [hvalue]
      exact .pure rfl
    · exact .failAt (c.there (.functionUndeclared "") ht)
  · refine .ask Scope.Table.hasVariable (fun _ _ h => h.hasVariable) hvalue ?_ ?_
    · rw [hvalue]
      exact .pure rfl
    · exact .failAt (c.there (.variableUndeclared "") ht)

theorem couples_signed (h : ∀ power, CouplesExpr c (subs power)) : CouplesExpr c (signed subs) := by
  refine couples_advance.bind ?_
  intro t t' ht
  rw [c.kind_eq ht]
  cases PrefixOp.ofKind? t.kind with
  | some op =>
    refine (h .unary).bind ?_
    rintro operand _ rfl
    exact .pure rfl
  | none => exact couples_unexpectedToken ht

theorem couples_group (h : CouplesExpr c sub) : CouplesExpr c (group sub) := by
  refine (couples_expect .openParen).discard (h.bind ?_)
  rintro expr _ rfl
  exact (couples_expect .closeParen).discard (.pure rfl)

theorem couples_operand (h : ∀ power, CouplesExpr c (subs power)) (n : Nat) :
    CouplesExpr c (operand .standard n subs) := by
  refine couples_peek.bind fun o o' ho => ?_
  cases ho with
  | none => exact .failHere _
  | @some t t' ht =>
    simp only [c.kind_eq ht]
    cases Rules.standard.operand? t.kind with
    | none => exact couples_unexpectedToken ht
    | some rule =>
      cases rule with
      | literal => exact couples_literal
      | name => exact couples_reference (h .lowest) n
      | sign => exact couples_signed h
      | group => exact couples_group (h .lowest)

theorem couples_binary (h : ∀ power, CouplesExpr c (subs power)) (left : Expr)
    (power : BindingPower) :
    Couples c (Expr.rename c.name · = ·) (binary subs left power)
      (binary subs (left.rename c.name) power) := by
  refine couples_advance.bind ?_
  intro t t' ht
  rw [c.kind_eq ht]
  cases BinaryOp.ofKind? t.kind with
  | some op =>
    refine (h power).bind ?_
    rintro right _ rfl
    exact .pure rfl
  | none => exact couples_unexpectedToken ht

theorem couples_operators (h : ∀ power, CouplesExpr c (subs power)) (floor : BindingPower)
    (n : Nat) (left : Expr) :
    Couples c (Expr.rename c.name · = ·) (operators .standard subs floor n left)
      (operators .standard subs floor n (left.rename c.name)) := by
  induction n generalizing left with
  | zero => exact .pure rfl
  | succ n ih =>
    refine couples_peekKind.bind ?_
    rintro kind _ rfl
    cases kind.bind Rules.standard.power? with
    | none => exact .pure rfl
    | some power =>
      by_cases hfloor : power ≤ floor
      · simp only [hfloor, if_true]
        exact .pure rfl
      · simp only [hfloor, if_false]
        refine (couples_binary h left power).bind ?_
        rintro expr _ rfl
        exact ih expr

theorem couples_expression (n : Nat) (floor : BindingPower) :
    CouplesExpr c (expression .standard n floor) := by
  induction n generalizing floor with
  | zero => exact .nested Rules.maxNesting (.failHere _)
  | succ n ih =>
    refine .nested Rules.maxNesting ((couples_operand ih n).bind ?_)
    rintro left _ rfl
    exact couples_operators ih floor n left

end Expressions

section Statements

theorem couples_freshVariable (expected : String) :
    Couples c (c.name · = ·) (freshVariable expected) (freshVariable expected) := by
  refine (couples_expectNamed .identifier expected).bind ?_
  rintro t t' ⟨hkind, ht⟩
  have hvalue := c.value_identifier ht hkind
  refine .ask Scope.Table.hasLocalVariable (fun _ _ h => h.hasLocalVariable) hvalue ?_ ?_
  · exact .failAt (c.there (.variableRedeclared "") ht)
  · exact .pure hvalue.symm

theorem couples_freshFunction : Couples c (c.name · = ·) freshFunction freshFunction := by
  refine (couples_expectNamed .identifier _).bind ?_
  rintro t t' ⟨hkind, ht⟩
  have hvalue := c.value_identifier ht hkind
  refine .ask Scope.Table.hasLocalFunction (fun _ _ h => h.hasLocalFunction) hvalue ?_ ?_
  · exact .failAt (c.there (.functionRedeclared "") ht)
  · exact .pure hvalue.symm

theorem couples_paramType : Couples c (c.name · = ·) paramType paramType := by
  refine (couples_expectNamed .identifier _).bind ?_
  rintro t t' ⟨hkind, ht⟩
  exact .pure (c.value_identifier ht hkind).symm

theorem couples_returnType : Couples c Eq returnType returnType := by
  refine (couples_expectNamed .identifier _).bind ?_
  rintro t t' ⟨hkind, ht⟩
  have htype : ReturnType.ofName? t'.value = ReturnType.ofName? t.value := by
    rw [c.value_identifier ht hkind, c.ofName?_name]
  simp only [htype]
  cases ReturnType.ofName? t.value with
  | some type => exact .pure rfl
  | none => exact .failAt (c.there (.unknownReturnType "") ht)

theorem couples_binding {value : Parser Expr} (h : CouplesExpr c value) :
    Couples c (Stmt.rename c.name · = ·) (binding value) (binding value) := by
  refine couples_advance.bind ?_
  intro lead lead' hlead
  rw [c.isWord_eq (by decide) hlead]
  refine (couples_freshVariable _).bind ?_
  rintro name _ rfl
  refine (couples_expect .assignment).discard (h.bind ?_)
  rintro value _ rfl
  refine (couples_expect .semicolon).discard ((couples_change (.variable name _)).bind ?_)
  rintro _ _ -
  exact .pure rfl

theorem couples_returning {value : Parser Expr} (h : CouplesExpr c value) :
    Couples c (Stmt.rename c.name · = ·) (returning value) (returning value) := by
  refine couples_advance.discard (h.bind ?_)
  rintro value _ rfl
  exact (couples_expect .semicolon).discard (.pure rfl)

theorem couples_param : Couples c (Param.rename c.name · = ·) param param := by
  refine (couples_freshVariable _).bind ?_
  rintro name _ rfl
  refine (couples_expect .colon).discard (couples_paramType.bind ?_)
  rintro type _ rfl
  refine (couples_change (.variable name .immutable)).bind ?_
  rintro _ _ -
  exact .pure rfl

theorem couples_paramList (n : Nat) :
    Couples c (List.map (Param.rename c.name) · = ·) (paramList n) (paramList n) := by
  induction n with
  | zero => exact couples_unexpected _
  | succ n ih =>
    refine couples_param.bind ?_
    rintro first _ rfl
    exact couples_separated ih rfl fun _ => rfl

theorem couples_params (n : Nat) :
    Couples c (List.map (Param.rename c.name) · = ·) (params n) (params n) :=
  couples_enclosed (couples_paramList n) rfl

/-- A parser of what may be a statement, run on both sides. -/
abbrev CouplesStmt (c : Coupling) (p : Parser (Option Stmt)) : Prop :=
  Couples c (Option.map (Stmt.rename c.name) · = ·) p p

/-- A parser of several statements, run on both sides. -/
abbrev CouplesStmts (c : Coupling) (p : Parser (List Stmt)) : Prop :=
  Couples c (Stmt.renameAll c.name · = ·) p p

variable {stmt : Parser (Option Stmt)}

theorem couples_turn {loop : Parser (List Stmt)} (h : CouplesStmt c stmt)
    (hloop : CouplesStmts c loop) : CouplesStmts c (turn stmt loop) := by
  refine h.bind ?_
  rintro stmt? _ rfl
  cases stmt? with
  | none => exact hloop
  | some first =>
    refine hloop.bind ?_
    rintro rest _ rfl
    exact .pure rfl

theorem couples_stmtLoop {ended closed more : Parser (List Stmt)} (hended : CouplesStmts c ended)
    (hclosed : CouplesStmts c closed) (h : CouplesStmts c more) :
    CouplesStmts c (stmtLoop ended closed more) := by
  refine couples_peekKind.bind ?_
  rintro kind _ rfl
  split
  · exact hended
  · exact hclosed
  · exact h

theorem couples_blockBody (h : CouplesStmt c stmt) (n : Nat) :
    CouplesStmts c (blockBody stmt n) := by
  induction n with
  | zero => exact couples_unexpected _
  | succ n ih => exact couples_stmtLoop (couples_unexpected _) (.pure rfl) (couples_turn h ih)

theorem couples_block (h : CouplesStmt c stmt) (limit n : Nat) :
    CouplesStmts c (block (some limit) n stmt) := by
  have hbody := Couples.nested limit (couples_blockBody h n)
  refine (couples_expect .openCurly).discard (hbody.bind ?_)
  rintro body _ rfl
  exact (couples_expect .closeCurly).discard (.pure rfl)

theorem couples_function {body : Parser (List Stmt)} (h : CouplesStmts c body) (n : Nat) :
    Couples c (Stmt.rename c.name · = ·) (function n body) (function n body) := by
  refine couples_advance.discard (couples_freshFunction.bind ?_)
  rintro name _ rfl
  refine (couples_change (.function name)).bind fun _ _ _ => ?_
  refine (couples_change .enter).bind fun _ _ _ => ?_
  refine (couples_params n).bind ?_
  rintro params _ rfl
  refine (couples_expect .colon).discard (couples_returnType.bind ?_)
  rintro type _ rfl
  refine h.bind ?_
  rintro body _ rfl
  refine (couples_expect .semicolon).discard ((couples_change .exit).bind fun _ _ _ => ?_)
  exact .pure rfl

theorem couples_statement (n : Nat) : CouplesStmt c (statement .standard n) := by
  induction n with
  | zero => exact .failHere _
  | succ n ih =>
    refine couples_peek.bind fun o o' ho => ?_
    cases ho with
    | none => exact .failHere _
    | @some t t' ht =>
      simp only [c.kind_eq ht]
      split
      · exact .pure rfl
      · exact couples_advance.discard (.pure rfl)
      · next hkind =>
        rw [c.value_identifier ht hkind, c.stmt?_name]
        cases Rules.standard.stmt? t.value with
        | some rule =>
          have hrule : Couples c (Stmt.rename c.name · = ·)
              (rule.parse .standard (n + 1) (statement .standard n))
              (rule.parse .standard (n + 1) (statement .standard n)) := by
            cases rule with
            | function => exact couples_function (couples_block ih _ _) _
            | binding => exact couples_binding (couples_expression _ _)
            | returning => exact couples_returning (couples_expression _ _)
          refine hrule.bind ?_
          rintro tree _ rfl
          exact .pure rfl
        | none =>
          refine (couples_expression _ _).bind ?_
          rintro value _ rfl
          exact .pure rfl
      · exact couples_unexpectedToken ht

theorem couples_topLevel (h : CouplesStmt c stmt) (n : Nat) :
    CouplesStmts c (topLevel stmt n) := by
  induction n with
  | zero => exact .pure rfl
  | succ n ih => exact couples_stmtLoop (.pure rfl) (.failHere _) (couples_turn h ih)

theorem couples_program (c : Coupling) (n : Nat) : CouplesStmts c (program .standard n) := by
  refine (couples_change .enter).bind fun _ _ _ => ?_
  have hnames : Couples c (fun _ _ => True)
      (builtins.forM fun name => change (.function name))
      (builtins.forM fun name => change (.function name)) := by
    have h := couples_change (c := c) (.function "echo")
    rw [Scope.Change.rename, c.name_reserved "echo" (by decide)] at h
    exact h.bind fun _ _ _ => .pure trivial
  refine hnames.bind fun _ _ _ => ?_
  refine (couples_topLevel (couples_statement n) n).bind ?_
  rintro body _ rfl
  refine (couples_change .exit).bind fun _ _ _ => ?_
  constructor
  · exact fun s => ends_bind.2 (ends_modify.2 ⟨⟨_, rfl⟩, List.suffix_refl _⟩)
  · intro s s' hs
    refine ends_bind.2 (ends_modify.2 (.inr ?_))
    exact ends_bind.2 (ends_modify.2 ⟨rfl, hs.place, hs.scopes, hs.depth⟩)

end Statements

/-- Whole parses of tokens that correspond. They may be of different number: both are run with a
bound that is large enough for either. -/
theorem Coupling.parse_together (c : Coupling) {tokens tokens' : List Token} (file file' : String)
    (h : c.place (tokens, ⟨1, file⟩) (tokens', ⟨1, file'⟩)) :
    match run .standard tokens file with
    | .ok trees last => c.off last.rest ∨ parse tokens' file' = .ok (Stmt.renameAll c.name trees)
    | .error failure last => c.off last.rest ∨
      ∃ d, parse tokens' file' = .error d ∧ c.alike failure.diagnostic d := by
  have hrel : c.Rel { rest := tokens, file } { rest := tokens', file := file' } := ⟨h, .nil, rfl⟩
  have hends := (couples_program c (max tokens.length tokens'.length)).together hrel
  unfold Ends at hends
  rw [run_program_eq .standard tokens file (Nat.le_max_left _ _),
    run_program_eq .standard tokens' file' (Nat.le_max_right _ _)] at hends
  unfold parse
  cases hrun : run .standard tokens file with
  | ok trees last =>
    rw [hrun] at hends
    refine hends.imp_right fun h => ?_
    cases hrun' : run .standard tokens' file' with
    | ok trees' last' =>
      rw [hrun'] at h
      exact congrArg _ h.1.symm
    | error failure last' => rw [hrun'] at h; exact h.elim
  | error failure last =>
    rw [hrun] at hends
    refine hends.imp_right fun h => ?_
    cases hrun' : run .standard tokens' file' with
    | ok trees' last' => rw [hrun'] at h; exact h.elim
    | error failure' last' =>
      rw [hrun'] at h
      exact ⟨_, rfl, h⟩

end Scopewise.Parse
