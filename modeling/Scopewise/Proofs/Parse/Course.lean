import Scopewise.Proofs.Parse.Moves
import Scopewise.Proofs.Token.Spelling

namespace Scopewise.Parse

open Scope Token

variable {α β : Type} {limit : Option Nat} {s t r : State}

/-- A parse from `s` to `t` has gone on in the tokens and counted the newlines that it passed, and
has closed the levels that it opened. -/
structure State.Onward (limit : Option Nat) (s t : State) : Prop where
  passed : ∃ passed, s.rest = passed ++ t.rest ∧ t.line = s.line + (newlines passed).toUInt32
  file : t.file = s.file
  depth : t.depth = s.depth
  peak : ∀ bound ∈ limit, s.peak ≤ bound → t.peak ≤ bound

namespace State.Onward

theorem refl (s : State) : s.Onward limit s :=
  ⟨⟨[], rfl, (UInt32.add_zero _).symm⟩, rfl, rfl, fun _ _ => id⟩

theorem trans (h : s.Onward limit t) (h' : t.Onward limit r) : s.Onward limit r where
  passed := by
    obtain ⟨before, hrest, hline⟩ := h.passed
    obtain ⟨after, hrest', hline'⟩ := h'.passed
    refine ⟨before ++ after, by rw [hrest, hrest', List.append_assoc], ?_⟩
    rw [hline', hline, newlines_append, UInt32.add_assoc]
    exact congrArg _ (UInt32.ofNat_add _ _).symm
  file := h'.file.trans h.file
  depth := h'.depth.trans h.depth
  peak bound hbound hs := h'.peak bound hbound (h.peak bound hbound hs)

theorem skip (s : State) : s.Onward limit s.skipNewlines where
  passed := by
    refine ⟨s.rest.takeWhile (·.kind = .newline), List.takeWhile_append_dropWhile.symm, ?_⟩
    have hcount : newlines (s.rest.takeWhile (·.kind = .newline)) =
        (s.rest.takeWhile (·.kind = .newline)).length :=
      List.countP_eq_length.2 (List.all_eq_true.1 List.all_takeWhile)
    rw [hcount]
    rfl
  file := rfl
  depth := rfl
  peak _ _ := id

theorem next {u : Token} {us : List Token} (h : s.pending = u :: us) : s.Onward limit s.next := by
  refine (skip s).trans ⟨⟨[u], ?_, ?_⟩, rfl, rfl, fun _ _ => id⟩
  · obtain ⟨rest, hrest, -⟩ := State.rest_skipNewlines_of_pending h
    have hnext : s.next.rest = rest := congrArg List.tail hrest
    rw [hrest, hnext]
    rfl
  · have hmem : u ∈ s.pending := by rw [h]; exact List.mem_cons_self
    have hkind : u.kind ≠ .newline := by simpa using (List.mem_filter.1 hmem).2
    have hcount : newlines [u] = 0 := by simp [newlines, hkind]
    rw [hcount]
    exact (UInt32.add_zero _).symm

/-- What goes on one level deeper, where there is room for a level, goes on. -/
theorem ascend (hroom : ∀ bound ∈ limit, s.depth < bound) (h : s.descend.Onward limit t) :
    s.Onward limit t.ascend where
  passed := h.passed
  file := h.file
  depth := by
    have hdepth : t.depth = s.depth + 1 := h.depth
    show t.depth - 1 = s.depth
    omega
  peak bound hbound hs := by
    have hlt := hroom bound hbound
    exact h.peak bound hbound (show max s.peak (s.depth + 1) ≤ bound by omega)

theorem suffix (h : s.Onward limit t) : t.rest <:+ s.rest := by
  obtain ⟨passed, hrest, -⟩ := h.passed
  exact ⟨passed, hrest.symm⟩

end State.Onward

/-- At least one token that is not layout is taken. -/
def Consumes (s : State) (_ : α) (t : State) : Prop :=
  t.pending.length < s.pending.length

/-- A token in front of what is left has been taken. -/
theorem consumes_of_pending {a : α} {u : Token} (h : s.pending = u :: t.pending) :
    Consumes s a t := by
  unfold Consumes
  rw [h]
  exact Nat.lt_succ_self _

namespace Consumes

variable {a : α} {b : β}

theorem after (h : Consumes s a t) (h' : r.rest <:+ t.rest) : Consumes s b r :=
  Nat.lt_of_le_of_lt (h'.filter _).length_le h

theorem behind (h : Consumes t a r) (h' : t.rest <:+ s.rest) : Consumes s a r :=
  Nat.lt_of_lt_of_le h (h'.filter _).length_le

theorem length_lt (h : Consumes s a t) (h' : t.rest <:+ s.rest) :
    t.rest.length < s.rest.length := by
  obtain heq | hlt := h'.length_le.eq_or_lt
  · have hrest : t.rest = s.rest := h'.eq_of_length heq
    unfold Consumes State.pending at h
    rw [hrest] at h
    exact absurd h (Nat.lt_irrefl _)
  · exact hlt

end Consumes

/-- What may have become of the scopes behind a success and behind a failure. -/
structure Effect where
  done : Table → Table → Prop
  broken : Table → Table → Prop
  done_refl (table : Table) : done table table
  broken_refl (table : Table) : broken table table
  done_trans {a b c : Table} : done a b → done b c → done a c
  broken_trans {a b c : Table} : done a b → broken b c → broken a c

namespace Effect

/-- The scopes are as they were. -/
def none : Effect where
  done before after := after = before
  broken before after := after = before
  done_refl _ := rfl
  broken_refl _ := rfl
  done_trans h h' := h'.trans h
  broken_trans h h' := h'.trans h

/-- Only the innermost scope has changed; behind a failure, scopes may be left open in its place. -/
def innermost : Effect where
  done before after := after.scopes.tail = before.scopes.tail ∧ after.depth = before.depth
  broken before after := before.scopes.tail <:+ after.scopes ∧ before.depth ≤ after.depth
  done_refl _ := ⟨rfl, rfl⟩
  broken_refl _ := ⟨List.tail_suffix _, Nat.le_refl _⟩
  done_trans h h' := ⟨h'.1.trans h.1, h'.2.trans h.2⟩
  broken_trans h h' := ⟨h.1 ▸ h'.1, h.2 ▸ h'.2⟩

end Effect

variable {effect : Effect}

theorem ends_nested_none {p : Parser α} {good : α → State → Prop}
    {bad : Failure → State → Prop} :
    Ends (nested none p) s good bad ↔
      Ends p s.descend (fun a t => good a t.ascend) fun e t => bad e t.ascend := by
  -- a bound that the state is still below makes no difference
  have hdescend : (descend none).run s = (descend (some (s.depth + 1))).run s := by
    apply run_eq_of_ends
    intro good bad
    rw [ends_descend, if_pos (Nat.lt_succ_self _)]
    exact ends_modify
  have hnested : (nested none p).run s = (nested (some (s.depth + 1)) p).run s :=
    run_bind_congr hdescend _
  rw [ends_congr hnested, ends_nested, if_pos (Nat.lt_succ_self _)]

def Proceeds (limit : Option Nat) (effect : Effect) (p : Parser α) (s : State)
    (good : α → State → Prop) : Prop :=
  Ends p s (fun a t => s.Onward limit t ∧ effect.done s.scopes t.scopes ∧ good a t)
    fun _ t => s.Onward limit t ∧ effect.broken s.scopes t.scopes

namespace Proceeds

variable {p : Parser α} {f : α → Parser β} {mid : α → State → Prop} {good : β → State → Prop}

theorem mono {mid' : α → State → Prop} (h : Proceeds limit effect p s mid)
    (hmid : ∀ a t, s.Onward limit t → mid a t → mid' a t) : Proceeds limit effect p s mid' :=
  Ends.mono h (fun a t ha => ⟨ha.1, ha.2.1, hmid a t ha.1 ha.2.2⟩) fun _ _ => id

theorem bind (hp : Proceeds limit effect p s mid)
    (hf : ∀ a t, s.Onward limit t → mid a t → Proceeds limit effect (f a) t good) :
    Proceeds limit effect (p >>= f) s good := by
  refine ends_bind.2 (Ends.mono hp ?_ fun _ _ => id)
  rintro a t ⟨hst, hdone, ha⟩
  refine Ends.mono (hf a t hst ha) ?_ ?_
  · rintro b r ⟨htr, hdone', hb⟩
    exact ⟨hst.trans htr, effect.done_trans hdone hdone', hb⟩
  · rintro e r ⟨htr, hbroken⟩
    exact ⟨hst.trans htr, effect.broken_trans hdone hbroken⟩

theorem discard {f : Unit → Parser β} (hp : Proceeds limit effect p s mid)
    (hf : ∀ a t, s.Onward limit t → mid a t → Proceeds limit effect (f ()) t good) :
    Proceeds limit effect (Functor.discard p >>= f) s good := by
  rw [discard_bind]
  exact hp.bind hf

theorem pure {a : α} (h : mid a s) : Proceeds limit effect (Pure.pure a) s mid :=
  ends_pure.2 ⟨.refl s, effect.done_refl _, h⟩

theorem get {f : State → Parser β} (h : Proceeds limit effect (f s) s good) :
    Proceeds limit effect (MonadState.get >>= f) s good :=
  ends_bind.2 (ends_get.2 h)

theorem failAt {fault : Fault} {position : Position} :
    Proceeds limit effect (Parse.failAt fault position) s mid :=
  ends_failAt.2 ⟨.refl s, effect.broken_refl _⟩

theorem failHere {fault : Fault} : Proceeds limit effect (Parse.failHere fault) s mid :=
  ends_failHere.2 ⟨.refl s, effect.broken_refl _⟩

theorem unexpectedToken (u : Token) : Proceeds limit effect (Parse.unexpectedToken u) s mid :=
  failAt

theorem peek : Proceeds limit effect Parse.peek s fun a t =>
    a = s.pending.head? ∧ t.pending = s.pending :=
  ends_peek.2 ⟨.skip s, effect.done_refl _, rfl, s.pending_skipNewlines⟩

theorem peekKind : Proceeds limit effect Parse.peekKind s fun a t =>
    a = s.pending.head?.map (·.kind) ∧ t.pending = s.pending :=
  ends_peekKind.2 ⟨.skip s, effect.done_refl _, rfl, s.pending_skipNewlines⟩

theorem advance : Proceeds limit effect Parse.advance s fun a t => s.pending = a :: t.pending := by
  apply ends_advance.2
  cases hpending : s.pending with
  | nil => exact ⟨.skip s, effect.broken_refl _⟩
  | cons u us =>
    refine ⟨.next hpending, effect.done_refl _, ?_⟩
    show u :: us = u :: s.next.pending
    rw [State.pending_next, hpending]
    rfl

theorem unexpected {expected : String} :
    Proceeds limit effect (Parse.unexpected expected) s mid := by
  apply ends_unexpected.2
  cases s.pending with
  | nil => exact ⟨.skip s, effect.broken_refl _⟩
  | cons u us => exact ⟨.skip s, effect.broken_refl _⟩

theorem expectNamed {kind : Token.Kind} {expected : String} :
    Proceeds limit effect (Parse.expectNamed kind expected) s fun a t =>
      s.pending = a :: t.pending := by
  refine peekKind.bind fun k t _ hk => ?_
  rw [← hk.2]
  split
  · exact advance
  · exact unexpected

theorem expect {kind : Token.Kind} :
    Proceeds limit effect (Parse.expect kind) s fun a t => s.pending = a :: t.pending :=
  expectNamed

/-- A level is left again whether what stands in it is read or refused. -/
theorem nested (h : Proceeds limit effect p s.descend fun a t => mid a t.ascend) :
    Proceeds limit effect (Parse.nested limit p) s mid := by
  have hinside (hroom : ∀ bound ∈ limit, s.depth < bound) :
      Ends p s.descend
        (fun a t => s.Onward limit t.ascend ∧ effect.done s.scopes t.scopes ∧ mid a t.ascend)
        fun _ t => s.Onward limit t.ascend ∧ effect.broken s.scopes t.scopes :=
    Ends.mono h (fun a t ha => ⟨ha.1.ascend hroom, ha.2⟩) fun e t he => ⟨he.1.ascend hroom, he.2⟩
  cases limit with
  | none => exact ends_nested_none.2 (hinside (by simp))
  | some bound =>
    apply ends_nested.2
    split
    · next hroom => exact hinside (by simpa using hroom)
    · exact ⟨.refl s, effect.broken_refl _⟩

end Proceeds

section Expressions

variable {rules : Rules} {sub : Parser Expr} {subs : BindingPower → Parser Expr}

theorem proceeds_literal : Proceeds limit effect literal s (Consumes s) := by
  refine Proceeds.expect.bind fun u t _ hu => ?_
  split
  · exact .pure (consumes_of_pending hu)
  · exact .failAt

theorem proceeds_separated {first : α} {list : Parser (List α)}
    (h : ∀ s, Proceeds limit effect list s fun _ _ => True) :
    Proceeds limit effect (separated first list) s fun _ _ => True := by
  refine Proceeds.peekKind.bind fun kind t _ _ => ?_
  split
  · refine Proceeds.advance.discard fun _ r _ _ => ?_
    exact (h r).bind fun _ _ _ _ => .pure trivial
  · exact Proceeds.advance.discard fun _ _ _ _ => .pure trivial
  · exact .unexpected

theorem proceeds_enclosed {list : Parser (List α)}
    (h : ∀ s, Proceeds limit effect list s fun _ _ => True) :
    Proceeds limit effect (enclosed list) s fun _ _ => True := by
  refine Proceeds.expect.discard fun _ t _ _ => Proceeds.peekKind.bind fun kind r _ _ => ?_
  split
  · exact Proceeds.advance.discard fun _ _ _ _ => .pure trivial
  · exact h r

theorem proceeds_argumentList (h : ∀ s, Proceeds limit effect sub s (Consumes s)) (n : Nat) :
    Proceeds limit effect (argumentList sub n) s fun _ _ => True := by
  induction n generalizing s with
  | zero => exact (h s).discard fun _ t _ _ => .unexpected
  | succ n ih => exact (h s).bind fun first t _ _ => proceeds_separated fun _ => ih

theorem proceeds_arguments (h : ∀ s, Proceeds limit effect sub s (Consumes s)) (n : Nat) :
    Proceeds limit effect (arguments n sub) s fun _ _ => True :=
  proceeds_enclosed fun _ => proceeds_argumentList h n

theorem proceeds_reference (h : ∀ s, Proceeds limit effect sub s (Consumes s)) (n : Nat) :
    Proceeds limit effect (reference n sub) s (Consumes s) := by
  refine Proceeds.expect.bind fun u t _ hu => Proceeds.peekKind.bind fun kind r htr _ => ?_
  have hr : Consumes s () r := (consumes_of_pending hu : Consumes s () t).after htr.suffix
  split
  · apply Proceeds.get
    split
    · exact (proceeds_arguments h n).bind fun _ q hrq _ => .pure (hr.after hrq.suffix)
    · exact .failAt
  · apply Proceeds.get
    split
    · exact .pure hr
    · exact .failAt

theorem proceeds_signed (h : ∀ power s, Proceeds limit effect (subs power) s (Consumes s)) :
    Proceeds limit effect (signed subs) s (Consumes s) := by
  refine Proceeds.advance.bind fun u t _ hu => ?_
  have ht : Consumes s () t := consumes_of_pending hu
  split
  · exact (h _ t).bind fun _ r htr _ => .pure (ht.after htr.suffix)
  · exact .unexpectedToken u

theorem proceeds_group (h : ∀ s, Proceeds limit effect sub s (Consumes s)) :
    Proceeds limit effect (group sub) s (Consumes s) := by
  refine Proceeds.expect.discard fun _ t _ hu => (h t).bind fun _ r htr _ => ?_
  have hr : Consumes s () r := (consumes_of_pending hu : Consumes s () t).after htr.suffix
  exact Proceeds.expect.discard fun _ q hrq _ => .pure (hr.after hrq.suffix)

theorem OperandRule.proceeds_parse
    (h : ∀ power s, Proceeds limit effect (subs power) s (Consumes s)) (n : Nat)
    (rule : OperandRule) : Proceeds limit effect (rule.parse n subs) s (Consumes s) := by
  cases rule with
  | literal => exact proceeds_literal
  | name => exact proceeds_reference (h _) n
  | sign => exact proceeds_signed h
  | group => exact proceeds_group (h _)

theorem proceeds_operand (h : ∀ power s, Proceeds limit effect (subs power) s (Consumes s))
    (n : Nat) : Proceeds limit effect (operand rules n subs) s (Consumes s) := by
  refine Proceeds.peek.bind fun token? t hst htoken => ?_
  split
  · exact .failHere
  · next u =>
    split
    · exact .unexpectedToken u
    · next rule _ => exact (rule.proceeds_parse h n).mono fun _ _ _ hr => hr.behind hst.suffix

theorem proceeds_binary (h : ∀ power s, Proceeds limit effect (subs power) s (Consumes s))
    (left : Expr) (power : BindingPower) :
    Proceeds limit effect (binary subs left power) s (Consumes s) := by
  refine Proceeds.advance.bind fun u t _ hu => ?_
  have ht : Consumes s () t := consumes_of_pending hu
  split
  · exact (h _ t).bind fun _ r htr _ => .pure (ht.after htr.suffix)
  · exact .unexpectedToken u

theorem proceeds_operators (h : ∀ power s, Proceeds limit effect (subs power) s (Consumes s))
    (floor : BindingPower) (n : Nat) (left : Expr) :
    Proceeds limit effect (operators rules subs floor n left) s fun _ _ => True := by
  induction n generalizing s left with
  | zero => exact .pure trivial
  | succ n ih =>
    refine Proceeds.peekKind.bind fun kind? t _ _ => ?_
    split
    · exact .pure trivial
    · next power _ =>
      split
      · exact .pure trivial
      · exact (proceeds_binary h left power).bind fun e _ _ _ => ih e

/-- An expression leaves the scopes as they are, and takes a token if it is read. -/
theorem proceeds_expression (rules : Rules) (n : Nat) (floor : BindingPower) (s : State) :
    Proceeds rules.limit effect (expression rules n floor) s (Consumes s) := by
  induction n generalizing floor s with
  | zero => exact .nested .failHere
  | succ n ih =>
    refine .nested ((proceeds_operand ih n).bind fun left t _ ht => ?_)
    refine (proceeds_operators ih floor n left).mono fun e r htr _ => ?_
    exact (ht.after htr.suffix : Consumes s.descend e r)

end Expressions

section Statements

theorem proceeds_freshVariable {expected : String} :
    Proceeds limit effect (freshVariable expected) s fun name t =>
      ∃ u, s.pending = u :: t.pending ∧ u.value = name := by
  refine Proceeds.expectNamed.bind fun u t _ hu => .get ?_
  split
  · exact .failAt
  · exact .pure ⟨u, hu, rfl⟩

theorem proceeds_freshFunction :
    Proceeds limit effect freshFunction s fun name t =>
      ∃ u, s.pending = u :: t.pending ∧ u.value = name := by
  refine Proceeds.expectNamed.bind fun u t _ hu => .get ?_
  split
  · exact .failAt
  · exact .pure ⟨u, hu, rfl⟩

theorem proceeds_paramType : Proceeds limit effect paramType s fun _ _ => True :=
  Proceeds.expectNamed.bind fun _ _ _ _ => .pure trivial

theorem proceeds_returnType : Proceeds limit effect returnType s fun _ _ => True := by
  refine Proceeds.expectNamed.bind fun u t _ _ => ?_
  split
  · exact .pure trivial
  · exact .failAt

/-- A change of the scopes takes no token, and one that fails leaves them as they are. -/
theorem ends_change_onward (limit : Option Nat) (change : Change) :
    Ends (Parse.change change) s
      (fun _ t => s.Onward limit t ∧ s.scopes.after? change = some t.scopes)
      fun _ t => s.Onward limit t ∧ s.scopes.after? change = none ∧ t.scopes = s.scopes := by
  have honward (table : Table) (events : List Event) :
      s.Onward limit { s with scopes := table, journal := s.journal ++ events } :=
    ⟨⟨[], rfl, (UInt32.add_zero _).symm⟩, rfl, rfl, fun _ _ => id⟩
  apply ends_change.2
  cases hafter : s.scopes.after? change with
  | none => exact ⟨honward _ _, rfl, rfl⟩
  | some table => exact ⟨honward _ _, rfl⟩

/-- A change that has a scope to go to is made. -/
theorem ends_change_of_after? (limit : Option Nat) {change : Change} {table : Table}
    {bad : Failure → State → Prop} (h : s.scopes.after? change = some table) :
    Ends (Parse.change change) s (fun _ t => s.Onward limit t ∧ t.scopes = table) bad := by
  refine Ends.mono (ends_change_onward limit change) ?_ ?_
  · rintro _ t ⟨hst, ht⟩
    exact ⟨hst, Option.some.inj (ht.symm.trans h)⟩
  · rintro _ t ⟨-, hnone, -⟩
    rw [h] at hnone
    cases hnone

/-- A declaration goes to the innermost scope; without one nothing changes. -/
theorem ends_change_of_declares (limit : Option Nat) {change : Change} {update : Scope → Scope}
    (hnil : Table.after? ⟨[]⟩ change = none)
    (hcons : ∀ scope outer, Table.after? ⟨scope :: outer⟩ change = some ⟨update scope :: outer⟩) :
    Ends (Parse.change change) s
      (fun _ t => s.Onward limit t ∧ ∃ scope outer, s.scopes.scopes = scope :: outer ∧
        t.scopes.scopes = update scope :: outer)
      fun _ t => s.Onward limit t ∧ t.scopes = s.scopes := by
  refine Ends.mono (ends_change_onward limit change) ?_ fun _ _ he => ⟨he.1, he.2.2⟩
  rintro _ t ⟨hst, ht⟩
  cases hscopes : s.scopes.scopes with
  | nil =>
    have hnone := (congrArg (Table.after? ⟨·⟩ change) hscopes).trans hnil
    cases ht.symm.trans hnone
  | cons scope outer =>
    have hsome := (congrArg (Table.after? ⟨·⟩ change) hscopes).trans (hcons scope outer)
    have htable := Option.some.inj (ht.symm.trans hsome)
    exact ⟨hst, scope, outer, rfl, congrArg Table.scopes htable⟩

theorem ends_change_variable (limit : Option Nat) (name : String) (mutability : Mutability) :
    Ends (change (.variable name mutability)) s
      (fun _ t => s.Onward limit t ∧ ∃ scope outer, s.scopes.scopes = scope :: outer ∧
        t.scopes.scopes = scope.declareVariable name mutability :: outer)
      fun _ t => s.Onward limit t ∧ t.scopes = s.scopes :=
  ends_change_of_declares limit rfl fun _ _ => rfl

theorem ends_change_function (limit : Option Nat) (name : String) :
    Ends (change (.function name)) s
      (fun _ t => s.Onward limit t ∧ ∃ scope outer, s.scopes.scopes = scope :: outer ∧
        t.scopes.scopes = scope.declareFunction name :: outer)
      fun _ t => s.Onward limit t ∧ t.scopes = s.scopes :=
  ends_change_of_declares limit rfl fun _ _ => rfl

section Innermost

variable {before after : Table} {scope scope' : Scope} {outer : List Scope}

theorem done_innermost (h : before.scopes = scope :: outer) (h' : after.scopes = scope' :: outer) :
    Effect.innermost.done before after := by
  constructor
  · rw [h, h']
    rfl
  · show after.scopes.length = before.scopes.length
    rw [h, h']
    rfl

theorem exists_of_done_innermost (h : before.scopes = scope :: outer)
    (hdone : Effect.innermost.done before after) : ∃ scope', after.scopes = scope' :: outer := by
  obtain ⟨htail, hdepth⟩ := hdone
  have hlength : after.scopes.length = before.scopes.length := hdepth
  rw [h] at htail hlength
  cases hafter : after.scopes with
  | nil => simp [hafter] at hlength
  | cons scope' rest =>
    rw [hafter] at htail
    exact ⟨scope', congrArg _ htail⟩

theorem exists_of_broken_innermost (h : before.scopes = scope :: outer)
    (hbroken : Effect.innermost.broken before after) :
    ∃ top, top ≠ [] ∧ after.scopes = top ++ outer := by
  obtain ⟨⟨top, htop⟩, hdepth⟩ := hbroken
  have hlength : before.scopes.length ≤ after.scopes.length := hdepth
  rw [h] at htop hlength
  refine ⟨top, ?_, htop.symm⟩
  rintro rfl
  rw [← htop, List.nil_append, List.tail_cons, List.length_cons] at hlength
  omega

end Innermost

theorem proceeds_change_variable (name : String) (mutability : Mutability) :
    Proceeds limit .innermost (change (.variable name mutability)) s fun _ _ => True := by
  refine Ends.mono (ends_change_variable limit name mutability) ?_ ?_
  · rintro _ t ⟨hst, scope, outer, hs, ht⟩
    exact ⟨hst, done_innermost hs ht, trivial⟩
  · rintro _ t ⟨hst, hscopes⟩
    exact ⟨hst, hscopes ▸ Effect.innermost.broken_refl _⟩

theorem proceeds_param : Proceeds limit .innermost param s fun _ _ => True := by
  refine proceeds_freshVariable.bind fun name t _ _ => ?_
  refine Proceeds.expect.discard fun _ t _ _ => ?_
  refine proceeds_paramType.bind fun type t _ _ => ?_
  exact (proceeds_change_variable name .immutable).bind fun _ _ _ _ => .pure trivial

theorem proceeds_paramList (n : Nat) :
    Proceeds limit .innermost (paramList n) s fun _ _ => True := by
  induction n generalizing s with
  | zero => exact .unexpected
  | succ n ih => exact proceeds_param.bind fun first t _ _ => proceeds_separated fun _ => ih

theorem proceeds_params (n : Nat) : Proceeds limit .innermost (params n) s fun _ _ => True :=
  proceeds_enclosed fun _ => proceeds_paramList n

/-- A binding up to the change of the scopes. -/
def bindingHead (value : Parser Expr) : Parser (Mutability × String × Expr) := do
  let lead ← advance
  let mutability : Mutability := if lead.isWord "let" then .mutable else .immutable
  let name ← freshVariable "variable name"
  discard (expect .assignment)
  let value ← value
  discard (expect .semicolon)
  return (mutability, name, value)

theorem binding_eq (value : Parser Expr) : binding value = do
    let (mutability, name, value) ← bindingHead value
    change (.variable name mutability)
    return .binding mutability name value := by
  simp [binding, bindingHead]

/-- One variable has been declared, in the innermost scope: the name is that of the second token,
and the first says whether it can be changed. -/
def Binds (s : State) (stmt : Stmt) (t : State) : Prop :=
  ∃ lead name us value scope outer, s.pending = lead :: name :: us ∧
    let mutability : Mutability := if lead.isWord "let" then .mutable else .immutable
    stmt = .binding mutability name.value value ∧ s.scopes.scopes = scope :: outer ∧
      t.scopes.scopes = scope.declareVariable name.value mutability :: outer

theorem ends_binding {value : Parser Expr}
    (hvalue : ∀ s, Proceeds limit .none value s (Consumes s)) :
    Ends (binding value) s
      (fun stmt t => s.Onward limit t ∧ Consumes s stmt t ∧ Binds s stmt t)
      fun _ t => s.Onward limit t ∧ t.scopes = s.scopes := by
  have hhead : Proceeds limit .none (bindingHead value) s fun head t =>
      ∃ lead name us, s.pending = lead :: name :: us ∧ Consumes s head t ∧
        head.1 = (if lead.isWord "let" then .mutable else .immutable) ∧
        head.2.1 = name.value := by
    refine Proceeds.advance.bind fun lead t _ hlead => ?_
    refine proceeds_freshVariable.bind ?_
    rintro name r htr ⟨u, hu, rfl⟩
    refine Proceeds.expect.discard fun _ q hrq _ => ?_
    refine (hvalue q).bind fun e w hqw _ => ?_
    refine Proceeds.expect.discard fun _ x hwx _ => .pure ?_
    have htx := ((htr.trans hrq).trans hqw).trans hwx
    exact ⟨lead, u, r.pending, by rw [hlead, hu],
      (consumes_of_pending hlead : Consumes s () t).after htx.suffix, rfl, rfl⟩
  rw [binding_eq]
  refine ends_bind.2 (Ends.mono hhead ?_ fun _ _ => id)
  rintro ⟨mutability, x, e⟩ t ⟨hst, hscopes, lead, name, us, hpending, ht, rfl, rfl⟩
  refine ends_bind.2 (Ends.mono (ends_change_variable limit _ _) ?_ ?_)
  · rintro _ r ⟨htr, scope, outer, hscope, hscope'⟩
    rw [show t.scopes = s.scopes from hscopes] at hscope
    exact ⟨hst.trans htr, ht.after htr.suffix, lead, name, us, e, scope, outer, hpending, rfl,
      hscope, hscope'⟩
  · rintro _ r ⟨htr, hscopes'⟩
    exact ⟨hst.trans htr, hscopes'.trans hscopes⟩

theorem proceeds_returning {value : Parser Expr}
    (hvalue : ∀ s, Proceeds limit effect value s (Consumes s)) :
    Proceeds limit effect (returning value) s (Consumes s) := by
  refine Proceeds.advance.discard fun lead t _ hlead => ?_
  refine (hvalue t).bind fun e r htr _ => ?_
  refine Proceeds.expect.discard fun _ q hrq _ => .pure ?_
  exact (consumes_of_pending hlead : Consumes s () t).after (htr.trans hrq).suffix

/-- What a statement takes: nothing in front of a closing brace, where it yields none either. -/
def ConsumesUnlessClosing (s : State) (stmt? : Option Stmt) (t : State) : Prop :=
  if s.pending.head?.map (·.kind) = some .closeCurly then stmt? = .none ∧ t.pending = s.pending
  else Consumes s stmt? t

variable {stmt : Parser (Option Stmt)}

theorem proceeds_turn {loop : Parser (List Stmt)}
    (h : ∀ s, Proceeds limit effect stmt s (ConsumesUnlessClosing s))
    (hloop : ∀ s, Proceeds limit effect loop s fun _ _ => True) :
    Proceeds limit effect (turn stmt loop) s fun _ _ => True := by
  refine (h s).bind fun stmt? t _ _ => ?_
  cases stmt? with
  | none => exact hloop t
  | some first => exact (hloop t).bind fun _ _ _ _ => .pure trivial

theorem proceeds_blockBody (h : ∀ s, Proceeds limit effect stmt s (ConsumesUnlessClosing s))
    (n : Nat) : Proceeds limit effect (blockBody stmt n) s fun _ _ => True := by
  induction n generalizing s with
  | zero => exact .unexpected
  | succ n ih =>
    refine Proceeds.peekKind.bind fun kind t _ _ => ?_
    split
    · exact .unexpected
    · exact .pure trivial
    · exact proceeds_turn h fun _ => ih

theorem proceeds_block (h : ∀ s, Proceeds limit effect stmt s (ConsumesUnlessClosing s))
    (n : Nat) : Proceeds limit effect (block limit n stmt) s fun _ _ => True := by
  refine Proceeds.expect.discard fun _ t _ _ => ?_
  have hbody : Proceeds limit effect (nested limit (blockBody stmt n)) t fun _ _ => True :=
    .nested (proceeds_blockBody h n)
  refine hbody.bind fun body r _ _ => ?_
  exact Proceeds.expect.discard fun _ _ _ _ => .pure trivial

/-- What stands in a function's own scope. -/
def functionInside (n : Nat) (body : Parser (List Stmt)) :
    Parser (List Param × ReturnType × List Stmt) := do
  let ps ← params n
  discard (expect .colon)
  let type ← returnType
  let stmts ← body
  discard (expect .semicolon)
  return (ps, type, stmts)

/-- A function from its name on. -/
def functionNamed (n : Nat) (body : Parser (List Stmt)) (name : String) : Parser Stmt := do
  change (.function name)
  change .enter
  let (ps, type, stmts) ← functionInside n body
  change .exit
  return .function name ps type stmts

theorem function_eq (n : Nat) (body : Parser (List Stmt)) :
    function n body =
      (do discard advance; freshFunction) >>= fun name => functionNamed n body name := by
  simp [function, functionOf, functionNamed, functionInside]

theorem proceeds_functionInside {body : Parser (List Stmt)}
    (hbody : ∀ s, Proceeds limit .innermost body s fun _ _ => True) (n : Nat) :
    Proceeds limit .innermost (functionInside n body) s fun _ _ => True := by
  refine (proceeds_params n).bind fun params t _ _ => ?_
  refine Proceeds.expect.discard fun _ t _ _ => ?_
  refine proceeds_returnType.bind fun type t _ _ => ?_
  refine (hbody t).bind fun body r _ _ => ?_
  exact Proceeds.expect.discard fun _ _ _ _ => .pure trivial

/-- The scope of a function is closed behind it; a failure inside leaves it open. -/
theorem ends_functionNamed {body : Parser (List Stmt)}
    (hbody : ∀ s, Proceeds limit .innermost body s fun _ _ => True) (n : Nat) (name : String) :
    Ends (functionNamed n body name) s
      (fun stmt t => s.Onward limit t ∧ ∃ params type body scope outer,
        stmt = .function name params type body ∧ s.scopes.scopes = scope :: outer ∧
        t.scopes.scopes = scope.declareFunction name :: outer)
      fun _ t => s.Onward limit t ∧ (t.scopes = s.scopes ∨ ∃ scope outer top,
        s.scopes.scopes = scope :: outer ∧ top ≠ [] ∧
        t.scopes.scopes = top ++ scope.declareFunction name :: outer) := by
  refine ends_bind.2 (Ends.mono (ends_change_function limit name) ?_ ?_)
  · rintro _ t ⟨hst, scope, outer, hs, ht⟩
    have henter : t.scopes.after? .enter = some ⟨(scope.declareFunction name).child ::
        scope.declareFunction name :: outer⟩ :=
      congrArg (Table.after? ⟨·⟩ .enter) ht
    refine ends_bind.2 (Ends.mono (ends_change_of_after? limit henter) ?_ fun _ _ => id)
    rintro _ r ⟨htr, hr⟩
    have hr' := congrArg Table.scopes hr
    refine ends_bind.2 (Ends.mono (proceeds_functionInside hbody n) ?_ ?_)
    · rintro ⟨params, type, body⟩ q ⟨hrq, hdone, -⟩
      obtain ⟨inner, hq⟩ := exists_of_done_innermost hr' hdone
      have hexit : q.scopes.after? .exit = some ⟨scope.declareFunction name :: outer⟩ :=
        congrArg (Table.after? ⟨·⟩ .exit) hq
      refine ends_bind.2 (Ends.mono (ends_change_of_after? limit hexit) ?_ fun _ _ => id)
      rintro _ w ⟨hqw, hw⟩
      exact ⟨((hst.trans htr).trans hrq).trans hqw, params, type, body, scope, outer, rfl, hs,
        congrArg Table.scopes hw⟩
    · rintro _ q ⟨hrq, hbroken⟩
      obtain ⟨top, htop, hq⟩ := exists_of_broken_innermost hr' hbroken
      exact ⟨(hst.trans htr).trans hrq, .inr ⟨scope, outer, top, hs, htop, hq⟩⟩
  · rintro _ t ⟨hst, hscopes⟩
    exact ⟨hst, .inl hscopes⟩

/-- One function has been declared, in the innermost scope, under the name of the second token. -/
def Declares (s : State) (stmt : Stmt) (t : State) : Prop :=
  ∃ lead name us params type body scope outer, s.pending = lead :: name :: us ∧
    stmt = .function name.value params type body ∧ s.scopes.scopes = scope :: outer ∧
      t.scopes.scopes = scope.declareFunction name.value :: outer

/-- The function has been declared, and at least one scope is open above the one that holds it. -/
def LeavesOpen (s t : State) : Prop :=
  ∃ lead name us scope outer top, s.pending = lead :: name :: us ∧
    s.scopes.scopes = scope :: outer ∧ top ≠ [] ∧
      t.scopes.scopes = top ++ scope.declareFunction name.value :: outer

theorem ends_function {body : Parser (List Stmt)}
    (hbody : ∀ s, Proceeds limit .innermost body s fun _ _ => True) (n : Nat) :
    Ends (function n body) s
      (fun stmt t => s.Onward limit t ∧ Consumes s stmt t ∧ Declares s stmt t)
      fun _ t => s.Onward limit t ∧ (t.scopes = s.scopes ∨ LeavesOpen s t) := by
  have hhead : Proceeds limit .none (do discard advance; freshFunction) s fun name t =>
      ∃ lead u, s.pending = lead :: u :: t.pending ∧ u.value = name := by
    refine Proceeds.advance.discard fun lead t _ hlead => ?_
    refine proceeds_freshFunction.mono ?_
    rintro name r _ ⟨u, hu, rfl⟩
    exact ⟨lead, u, by rw [hlead, hu], rfl⟩
  rw [function_eq]
  refine ends_bind.2 (Ends.mono hhead ?_ ?_)
  · rintro _ t ⟨hst, hscopes, lead, name, hpending, rfl⟩
    have hscopes' : t.scopes = s.scopes := hscopes
    refine Ends.mono (ends_functionNamed hbody n name.value) ?_ ?_
    · rintro stmt r ⟨htr, params, type, body, scope, outer, rfl, hscope, hr⟩
      rw [hscopes'] at hscope
      have htaken : Consumes s () t := by
        unfold Consumes
        rw [hpending, List.length_cons, List.length_cons]
        omega
      exact ⟨hst.trans htr, htaken.after htr.suffix, lead, name, t.pending, params, type, body,
        scope, outer, hpending, rfl, hscope, hr⟩
    · rintro _ r ⟨htr, hr⟩
      rw [hscopes'] at hr
      refine ⟨hst.trans htr, hr.imp_right ?_⟩
      rintro ⟨scope, outer, top, hscope, htop, hr⟩
      exact ⟨lead, name, t.pending, scope, outer, top, hpending, hscope, htop, hr⟩
  · rintro _ t ⟨hst, hscopes⟩
    exact ⟨hst, .inl hscopes⟩

theorem StmtRule.proceeds_parse {rules : Rules} {n : Nat}
    (h : ∀ s, Proceeds rules.limit .innermost stmt s (ConsumesUnlessClosing s)) (rule : StmtRule) :
    Proceeds rules.limit .innermost (rule.parse rules n stmt) s (Consumes s) := by
  cases rule with
  | function =>
    refine Ends.mono (ends_function (fun _ => proceeds_block h n) n) ?_ ?_
    · rintro stmt t ⟨hst, ht, lead, name, us, params, type, body, scope, outer, -, -, hs, hs'⟩
      exact ⟨hst, done_innermost hs hs', ht⟩
    · rintro _ t ⟨hst, hscopes | ⟨lead, name, us, scope, outer, top, -, hs, htop, ht⟩⟩
      · exact ⟨hst, hscopes ▸ Effect.innermost.broken_refl _⟩
      · refine ⟨hst, ?_, ?_⟩
        · rw [hs, ht]
          exact (List.suffix_cons _ _).trans (List.suffix_append _ _)
        · show s.scopes.scopes.length ≤ t.scopes.scopes.length
          rw [hs, ht]
          simp
  | binding =>
    refine Ends.mono (ends_binding (proceeds_expression rules n .lowest)) ?_ ?_
    · rintro stmt t ⟨hst, ht, lead, name, us, value, scope, outer, -, -, hs, hs'⟩
      exact ⟨hst, done_innermost hs hs', ht⟩
    · rintro _ t ⟨hst, hscopes⟩
      exact ⟨hst, hscopes ▸ Effect.innermost.broken_refl _⟩
  | returning => exact proceeds_returning (proceeds_expression rules n .lowest)

/-- A statement touches no scope below the innermost one, and takes a token unless it stands in
front of a closing brace. -/
theorem proceeds_statement (rules : Rules) (n : Nat) (s : State) :
    Proceeds rules.limit .innermost (statement rules n) s (ConsumesUnlessClosing s) := by
  induction n generalizing s with
  | zero => exact .failHere
  | succ n ih =>
    refine Proceeds.peek.bind fun token? t hst htoken => ?_
    split
    · exact .failHere
    · next u =>
      have hhead : s.pending.head?.map (·.kind) = some u.kind := by rw [← htoken.1]; rfl
      have hopen {stmt? : Option Stmt} {r : State} (hkind : u.kind ≠ .closeCurly)
          (hr : Consumes t stmt? r) : ConsumesUnlessClosing s stmt? r := by
        unfold ConsumesUnlessClosing
        rw [hhead, if_neg (by simpa using hkind)]
        exact hr.behind hst.suffix
      split
      · next hkind =>
        refine .pure ?_
        unfold ConsumesUnlessClosing
        rw [hhead, hkind, if_pos rfl]
        exact ⟨rfl, htoken.2⟩
      · next hkind =>
        refine Proceeds.advance.discard fun _ r _ hr => .pure (hopen ?_ (consumes_of_pending hr))
        rw [hkind]
        decide
      · next hkind =>
        have hne : u.kind ≠ .closeCurly := by rw [hkind]; decide
        split
        · next rule _ =>
          refine (rule.proceeds_parse ih).bind fun stmt r _ hr => .pure (hopen hne ?_)
          exact hr
        · refine (proceeds_expression rules (n + 1) .lowest t).bind fun e r _ hr => ?_
          exact .pure (hopen hne hr)
      · exact .unexpectedToken u

end Statements

end Scopewise.Parse
