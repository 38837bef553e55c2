import Scopewise.Proofs.Parse.Moves
import Scopewise.Proofs.Token.Spelling
import Scopewise.Proofs.Violation

namespace Scopewise.Parse

open Token

/-- The ways in which a parse can fail: at a token that is not layout and with its text, at the end
of the input, at a closing brace, or where the parse stands. -/
inductive Blame (tokens : List Token) (file : String) : Diagnostic → Prop
  | token {t : Token} {fault : Fault} (ht : t ∈ tokens) (hkind : t.kind ≠ .newline)
      (htext : fault.text? = some t.value) : Blame tokens file ⟨fault, t.position⟩
  | ending (expected : String) :
      Blame tokens file ⟨.unexpectedEnd expected, (1 + newlines tokens).toUInt32, file⟩
  | brace {before after : List Token} {t : Token} (htokens : tokens = before ++ t :: after)
      (ht : t.kind = .closeCurly) :
      Blame tokens file ⟨.unmatchedBrace, (1 + newlines before).toUInt32, file⟩
  | place {before after : List Token} {fault : Fault} (htokens : tokens = before ++ after)
      (hfault : (∃ limit, fault = .nestingTooDeep limit) ∨ fault = .scopeUnderflow) :
      Blame tokens file ⟨fault, (1 + newlines before).toUInt32, file⟩

/-- The parse has passed some of the tokens, and its line counts the newlines among them. -/
structure State.On (s : State) (tokens : List Token) (file : String) : Prop where
  split : ∃ passed, tokens = passed ++ s.rest ∧ s.line = (1 + newlines passed).toUInt32
  file : s.file = file

variable {tokens : List Token} {file : String} {s t : State}

/-- A token that a fault can be about. -/
def Real (tokens : List Token) (u : Token) : Prop :=
  u ∈ tokens ∧ u.kind ≠ .newline

namespace State

theorem On.skip (h : s.On tokens file) : s.skipNewlines.On tokens file := by
  obtain ⟨passed, htokens, hline⟩ := h.split
  refine ⟨⟨passed ++ s.rest.takeWhile (·.kind = .newline), ?_, ?_⟩, h.file⟩
  · rw [htokens, List.append_assoc]
    exact congrArg (passed ++ ·) List.takeWhile_append_dropWhile.symm
  · have hcount : newlines (s.rest.takeWhile (·.kind = .newline)) =
        (s.rest.takeWhile (·.kind = .newline)).length :=
      List.countP_eq_length.2 (List.all_eq_true.1 List.all_takeWhile)
    rw [newlines_append, hcount, ← Nat.add_assoc]
    change s.line + _ = _
    rw [hline]
    exact (UInt32.ofNat_add _ _).symm

theorem length_skipNewlines_le (s : State) : s.skipNewlines.rest.length ≤ s.rest.length :=
  s.skipNewlines_suffix.length_le

/-- The next token that is not layout is behind the newlines. -/
theorem On.next (h : s.On tokens file) {u : Token} {us : List Token} (hu : s.pending = u :: us) :
    s.next.On tokens file ∧ s.next.rest.length < s.rest.length ∧ Real tokens u := by
  obtain ⟨rest, hrest, -⟩ := rest_skipNewlines_of_pending hu
  obtain ⟨passed, htokens, hline⟩ := h.skip.split
  have hkind : u.kind ≠ .newline := by
    have hmem : u ∈ s.pending := by rw [hu]; exact List.mem_cons_self
    simpa using (List.mem_filter.1 hmem).2
  have hnext : s.next.rest = rest := congrArg List.tail hrest
  refine ⟨⟨⟨passed ++ [u], ?_, ?_⟩, h.file⟩, ?_, ?_, hkind⟩
  · rw [htokens, hrest, hnext, List.append_assoc]
    rfl
  · have hcount : newlines (passed ++ [u]) = newlines passed := by
      rw [newlines_append]
      simp [newlines, hkind]
    rw [hcount, ← hline]
    rfl
  · exact length_rest_next_lt hu
  · rw [htokens, hrest]
    simp

end State

theorem State.On.blame_end (h : s.On tokens file) (hrest : s.rest = []) (expected : String) :
    Blame tokens file ⟨.unexpectedEnd expected, s.position⟩ := by
  obtain ⟨passed, htokens, hline⟩ := h.split
  obtain rfl : tokens = passed := by rw [htokens, hrest, List.append_nil]
  rw [State.position, hline, h.file]
  exact .ending expected

theorem State.On.blame_place (h : s.On tokens file) {fault : Fault}
    (hfault : (∃ limit, fault = .nestingTooDeep limit) ∨ fault = .scopeUnderflow) :
    Blame tokens file ⟨fault, s.position⟩ := by
  obtain ⟨passed, htokens, hline⟩ := h.split
  rw [State.position, hline, h.file]
  exact .place htokens hfault

theorem State.On.blame_brace (h : s.On tokens file) {u : Token} (hhead : s.rest.head? = some u)
    (hu : u.kind = .closeCurly) : Blame tokens file ⟨.unmatchedBrace, s.position⟩ := by
  obtain ⟨passed, htokens, hline⟩ := h.split
  obtain ⟨rest, hrest⟩ := List.head?_eq_some_iff.1 hhead
  rw [hrest] at htokens
  rw [State.position, hline, h.file]
  exact .brace htokens hu

variable {α β : Type}

/-- `p` goes on in the tokens and ends in `good`, or it fails at a place that is to blame. -/
def Guarded (tokens : List Token) (file : String) (p : Parser α) (s : State)
    (good : α → State → Prop) : Prop :=
  Ends p s (fun a t => t.On tokens file ∧ t.rest.length ≤ s.rest.length ∧ good a t)
    fun e _ => Blame tokens file e.diagnostic

namespace Guarded

variable {p : Parser α} {f : α → Parser β} {mid : α → State → Prop} {good : β → State → Prop}

theorem mono {mid' : α → State → Prop} (h : Guarded tokens file p s mid)
    (hmid : ∀ a t, t.rest.length ≤ s.rest.length → mid a t → mid' a t) :
    Guarded tokens file p s mid' :=
  Ends.mono h (fun a t ht => ⟨ht.1, ht.2.1, hmid a t ht.2.1 ht.2.2⟩) fun _ _ => id

theorem bind (hp : Guarded tokens file p s mid)
    (hf : ∀ a t, t.On tokens file → t.rest.length ≤ s.rest.length → mid a t →
      Guarded tokens file (f a) t good) :
    Guarded tokens file (p >>= f) s good := by
  refine ends_bind.2 (Ends.mono hp ?_ fun _ _ => id)
  intro a t ht
  refine Ends.mono (hf a t ht.1 ht.2.1 ht.2.2) ?_ fun _ _ => id
  intro b r hr
  exact ⟨hr.1, Nat.le_trans hr.2.1 ht.2.1, hr.2.2⟩

theorem discard {f : Unit → Parser β} (hp : Guarded tokens file p s mid)
    (hf : ∀ a t, t.On tokens file → t.rest.length ≤ s.rest.length → mid a t →
      Guarded tokens file (f ()) t good) :
    Guarded tokens file (Functor.discard p >>= f) s good := by
  have hdiscard : Guarded tokens file (Functor.discard p) s fun _ t => ∃ a, mid a t := by
    refine ends_discard.2 (Ends.mono hp ?_ fun _ _ => id)
    intro a t ht
    exact ⟨ht.1, ht.2.1, a, ht.2.2⟩
  apply hdiscard.bind
  rintro _ t ht hle ⟨a, hmid⟩
  exact hf a t ht hle hmid

theorem pure {a : α} (hs : s.On tokens file) (h : mid a s) :
    Guarded tokens file (Pure.pure a) s mid :=
  ends_pure.2 ⟨hs, Nat.le_refl _, h⟩

theorem failAt {u : Token} (hu : Real tokens u) {fault : Fault}
    (htext : fault.text? = some u.value) :
    Guarded tokens file (Parse.failAt fault u.position) s mid :=
  ends_failAt.2 (.token hu.1 hu.2 htext)

end Guarded

section Moves

variable {good : α → State → Prop}

theorem guarded_get {f : State → Parser α} (h : Guarded tokens file (f s) s good) :
    Guarded tokens file (get >>= f) s good :=
  ends_bind.2 (ends_get.2 h)

theorem guarded_peek (hs : s.On tokens file) :
    Guarded tokens file peek s fun a t =>
      a = t.rest.head? ∧ a = s.pending.head? ∧ ∀ u ∈ a, Real tokens u := by
  refine ends_peek.2 ⟨hs.skip, s.length_skipNewlines_le, s.head?_skipNewlines.symm, rfl, ?_⟩
  intro u hu
  obtain ⟨us, hus⟩ := List.head?_eq_some_iff.1 hu
  exact (hs.next hus).2.2

theorem guarded_peekKind (hs : s.On tokens file) :
    Guarded tokens file peekKind s fun a t =>
      a = t.rest.head?.map (·.kind) ∧ a = t.pending.head?.map (·.kind) := by
  refine ends_peekKind.2 ⟨hs.skip, s.length_skipNewlines_le, ?_, ?_⟩
  · rw [s.head?_skipNewlines]
  · rw [s.pending_skipNewlines]

theorem guarded_advance (hs : s.On tokens file) :
    Guarded tokens file advance s fun a t =>
      Real tokens a ∧ t.rest.length < s.rest.length := by
  apply ends_advance.2
  cases hpending : s.pending with
  | nil => exact hs.skip.blame_end (State.rest_skipNewlines_of_pending_nil hpending) _
  | cons u us =>
    obtain ⟨hnext, hlt, hreal⟩ := hs.next hpending
    exact ⟨hnext, Nat.le_of_lt hlt, hreal, hlt⟩

theorem guarded_unexpected (hs : s.On tokens file) (expected : String) :
    Guarded tokens file (unexpected expected) s good := by
  apply ends_unexpected.2
  cases hpending : s.pending with
  | nil => exact hs.skip.blame_end (State.rest_skipNewlines_of_pending_nil hpending) _
  | cons u us =>
    obtain ⟨-, -, hreal⟩ := hs.next hpending
    exact .token hreal.1 hreal.2 rfl

theorem guarded_expectNamed (hs : s.On tokens file) (kind : Token.Kind) (expected : String) :
    Guarded tokens file (expectNamed kind expected) s fun a t =>
      Real tokens a ∧ t.rest.length < s.rest.length := by
  refine (guarded_peekKind hs).bind fun k t ht hle _ => ?_
  split
  · apply (guarded_advance ht).mono
    intro a r _ hr
    exact ⟨hr.1, by omega⟩
  · exact guarded_unexpected ht expected

theorem guarded_expect (hs : s.On tokens file) (kind : Token.Kind) :
    Guarded tokens file (expect kind) s fun a t =>
      Real tokens a ∧ t.rest.length < s.rest.length :=
  guarded_expectNamed hs kind kind.describe

theorem guarded_change (hs : s.On tokens file) (c : Scope.Change) :
    Guarded tokens file (change c) s fun _ _ => True := by
  apply ends_change.2
  cases s.scopes.after? c with
  | none => exact hs.blame_place (.inr rfl)
  | some table => exact ⟨⟨hs.split, hs.file⟩, Nat.le_refl _, trivial⟩

theorem guarded_nested {bound : Nat} {p : Parser α} (hs : s.On tokens file)
    (h : ∀ t : State, t.On tokens file → t.rest = s.rest → Guarded tokens file p t good)
    (hgood : ∀ a t, good a t → good a t.ascend) :
    Guarded tokens file (nested (some bound) p) s good := by
  apply ends_nested.2
  split
  · refine Ends.mono (h s.descend ⟨hs.split, hs.file⟩ rfl) ?_ fun _ _ => id
    intro a t ht
    exact ⟨⟨ht.1.split, ht.1.file⟩, ht.2.1, hgood a t ht.2.2⟩
  · exact hs.blame_place (.inl ⟨_, rfl⟩)

theorem guarded_unexpectedToken {u : Token} (hu : Real tokens u) :
    Guarded tokens file (unexpectedToken u) s good :=
  Guarded.failAt hu rfl

/-- A parser that has run out of fuel stands at the end of the input. -/
theorem guarded_end (hs : s.On tokens file) (hrest : s.rest.length ≤ 0) (expected : String) :
    Guarded tokens file (failHere (.unexpectedEnd expected)) s good :=
  ends_failHere.2 (hs.blame_end (List.eq_nil_of_length_eq_zero (Nat.le_zero.1 hrest)) expected)

end Moves

/-- The value is read in full: at least one token is taken. -/
def Takes (s : State) (_ : α) (t : State) : Prop :=
  t.rest.length < s.rest.length

/-- With fuel for all tokens that are left, an expression fails only where there is blame. -/
def GuardedExpr (tokens : List Token) (file : String) (fuel : Nat) : Prop :=
  ∀ ⦃s : State⦄ (floor : BindingPower), s.On tokens file → s.rest.length ≤ fuel →
    Guarded tokens file (expression .standard fuel floor) s (Takes s)

variable {fuel : Nat}

theorem guarded_literal (hs : s.On tokens file) : Guarded tokens file literal s (Takes s) := by
  unfold literal
  refine (guarded_expect hs .integer).bind fun u t ht _ hu => ?_
  split
  · exact Guarded.pure ht hu.2
  · exact Guarded.failAt hu.1 rfl

theorem guarded_separated {first : α} {list : Parser (List α)} (hs : s.On tokens file)
    (h : ∀ t : State, t.On tokens file → t.rest.length ≤ s.rest.length →
      Guarded tokens file list t fun _ _ => True) :
    Guarded tokens file (separated first list) s fun _ _ => True := by
  refine (guarded_peekKind hs).bind fun kind t ht hle _ => ?_
  split
  · refine (guarded_advance ht).discard fun _ r hr hle' _ => ?_
    refine (h r hr (by omega)).bind fun rest q hq _ _ => ?_
    exact Guarded.pure hq trivial
  · refine (guarded_advance ht).discard fun _ r hr _ _ => ?_
    exact Guarded.pure hr trivial
  · exact guarded_unexpected ht _

theorem guarded_enclosed {list : Parser (List α)} (hs : s.On tokens file)
    (h : ∀ t : State, t.On tokens file → t.rest.length ≤ s.rest.length →
      Guarded tokens file list t fun _ _ => True) :
    Guarded tokens file (enclosed list) s fun _ _ => True := by
  refine (guarded_expect hs .openParen).discard fun _ t ht hle _ => ?_
  refine (guarded_peekKind ht).bind fun kind r hr hle' _ => ?_
  split
  · refine (guarded_advance hr).discard fun _ q hq _ _ => ?_
    exact Guarded.pure hq trivial
  · exact h r hr (by omega)

theorem guarded_argumentList (h : GuardedExpr tokens file fuel) (m : Nat)
    (hs : s.On tokens file) (hfuel : s.rest.length ≤ fuel) :
    Guarded tokens file (argumentList (expression .standard fuel .lowest) m) s
      fun _ _ => True := by
  induction m generalizing s with
  | zero =>
    refine (h .lowest hs hfuel).discard fun _ t ht _ _ => ?_
    exact guarded_unexpected ht _
  | succ m ih =>
    refine (h .lowest hs hfuel).bind fun e t ht hle _ => ?_
    exact guarded_separated ht fun r hr hle' => ih hr (by omega)

theorem guarded_arguments (h : GuardedExpr tokens file fuel) (hs : s.On tokens file)
    (hfuel : s.rest.length ≤ fuel) :
    Guarded tokens file (arguments fuel (expression .standard fuel .lowest)) s
      fun _ _ => True := by
  exact guarded_enclosed hs fun t ht hle => guarded_argumentList h fuel ht (by omega)

theorem guarded_reference (h : GuardedExpr tokens file fuel) (hs : s.On tokens file)
    (hfuel : s.rest.length ≤ fuel + 1) :
    Guarded tokens file (reference fuel (expression .standard fuel .lowest)) s (Takes s) := by
  unfold reference referenceOf
  refine (guarded_expect hs .identifier).bind fun u t ht _ hu => ?_
  have hlt := hu.2
  refine (guarded_peekKind ht).bind fun kind r hr hle _ => ?_
  split
  · apply guarded_get
    split
    · refine (guarded_arguments h hr (by omega)).bind fun args q hq hle' _ => ?_
      exact Guarded.pure hq (show q.rest.length < s.rest.length by omega)
    · exact Guarded.failAt hu.1 rfl
  · apply guarded_get
    split
    · exact Guarded.pure hr (show r.rest.length < s.rest.length by omega)
    · exact Guarded.failAt hu.1 rfl

theorem guarded_signed (h : GuardedExpr tokens file fuel) (hs : s.On tokens file)
    (hfuel : s.rest.length ≤ fuel + 1) :
    Guarded tokens file (signed (expression .standard fuel)) s (Takes s) := by
  unfold signed signedOr
  refine (guarded_advance hs).bind fun u t ht _ hu => ?_
  have hlt := hu.2
  split
  · refine (h .unary ht (by omega)).bind fun e r hr hle _ => ?_
    exact Guarded.pure hr (show r.rest.length < s.rest.length by omega)
  · exact guarded_unexpectedToken hu.1

theorem guarded_group (h : GuardedExpr tokens file fuel) (hs : s.On tokens file)
    (hfuel : s.rest.length ≤ fuel + 1) :
    Guarded tokens file (group (expression .standard fuel .lowest)) s (Takes s) := by
  unfold group
  refine (guarded_expect hs .openParen).discard fun u t ht _ hu => ?_
  have hlt := hu.2
  refine (h .lowest ht (by omega)).bind fun e r hr hle _ => ?_
  refine (guarded_expect hr .closeParen).discard fun _ q hq hle' _ => ?_
  exact Guarded.pure hq (show q.rest.length < s.rest.length by omega)

theorem guarded_operand (h : GuardedExpr tokens file fuel) (hs : s.On tokens file)
    (hfuel : s.rest.length ≤ fuel + 1) :
    Guarded tokens file (operand .standard fuel (expression .standard fuel)) s (Takes s) := by
  unfold operand operandOf
  apply (guarded_peek hs).bind
  rintro _ t ht hle ⟨rfl, -, hreal⟩
  split
  · next hhead =>
    have hnil : t.rest.length ≤ 0 := by simpa using hhead
    exact guarded_end ht hnil _
  · next u hhead =>
    split
    · exact guarded_unexpectedToken (hreal u hhead)
    · next rule _ =>
      have hfuel' : t.rest.length ≤ fuel + 1 := by omega
      have hrule : Guarded tokens file (rule.parse fuel (expression .standard fuel)) t
          (Takes t) := by
        cases rule with
        | literal => exact guarded_literal ht
        | name => exact guarded_reference h ht hfuel'
        | sign => exact guarded_signed h ht hfuel'
        | group => exact guarded_group h ht hfuel'
      refine hrule.mono fun _ r _ hr => ?_
      exact Nat.lt_of_lt_of_le hr hle

theorem guarded_binary (h : GuardedExpr tokens file fuel) (left : Expr) (power : BindingPower)
    (hs : s.On tokens file) (hfuel : s.rest.length ≤ fuel + 1) :
    Guarded tokens file (binary (expression .standard fuel) left power) s (Takes s) := by
  unfold binary binaryOr
  refine (guarded_advance hs).bind fun u t ht _ hu => ?_
  have hlt := hu.2
  split
  · refine (h power ht (by omega)).bind fun e r hr hle _ => ?_
    exact Guarded.pure hr (show r.rest.length < s.rest.length by omega)
  · exact guarded_unexpectedToken hu.1

theorem guarded_operators (h : GuardedExpr tokens file fuel) (floor : BindingPower) (m : Nat)
    (left : Expr) (hs : s.On tokens file) (hfuel : s.rest.length ≤ fuel) :
    Guarded tokens file (operators .standard (expression .standard fuel) floor m left) s
      fun _ _ => True := by
  induction m generalizing s left with
  | zero => exact Guarded.pure hs trivial
  | succ m ih =>
    unfold operators climb
    refine (guarded_peekKind hs).bind fun kind t ht hle _ => ?_
    split
    · exact Guarded.pure ht trivial
    · next power _ =>
      split
      · exact Guarded.pure ht trivial
      · refine (guarded_binary h left power ht (by omega)).bind fun e r hr hle' _ => ?_
        exact ih e hr (by omega)

theorem guardedExpr (tokens : List Token) (file : String) (fuel : Nat) :
    GuardedExpr tokens file fuel := by
  induction fuel with
  | zero =>
    intro s floor hs hfuel
    refine guarded_nested hs (fun t ht hrest => ?_) fun _ _ => id
    exact guarded_end ht (by rw [hrest]; exact hfuel) _
  | succ fuel ih =>
    intro s floor hs hfuel
    refine guarded_nested hs (fun t ht hrest => ?_) fun _ _ => id
    rw [← hrest] at hfuel
    refine (guarded_operand ih ht hfuel).bind fun left r hr _ hlt => ?_
    have hlt' : r.rest.length < t.rest.length := hlt
    refine (guarded_operators ih floor fuel left hr (by omega)).mono fun _ q hle _ => ?_
    show q.rest.length < s.rest.length
    rw [← hrest]
    omega

theorem guarded_freshVariable (hs : s.On tokens file) (expected : String) :
    Guarded tokens file (freshVariable expected) s (Takes s) := by
  unfold freshVariable
  refine (guarded_expectNamed hs .identifier expected).bind fun u t ht _ hu => ?_
  apply guarded_get
  split
  · exact Guarded.failAt hu.1 rfl
  · exact Guarded.pure ht hu.2

theorem guarded_freshFunction (hs : s.On tokens file) :
    Guarded tokens file freshFunction s (Takes s) := by
  unfold freshFunction
  refine (guarded_expectNamed hs .identifier _).bind fun u t ht _ hu => ?_
  apply guarded_get
  split
  · exact Guarded.failAt hu.1 rfl
  · exact Guarded.pure ht hu.2

theorem guarded_returnType (hs : s.On tokens file) :
    Guarded tokens file returnType s (Takes s) := by
  unfold returnType
  refine (guarded_expectNamed hs .identifier _).bind fun u t ht _ hu => ?_
  split
  · exact Guarded.pure ht hu.2
  · exact Guarded.failAt hu.1 rfl

theorem guarded_param (hs : s.On tokens file) : Guarded tokens file param s fun _ _ => True := by
  unfold param
  refine (guarded_freshVariable hs _).bind fun name t ht _ _ => ?_
  refine (guarded_expect ht .colon).discard fun _ r hr _ _ => ?_
  have htype : Guarded tokens file paramType r fun _ _ => True :=
    (guarded_expectNamed hr .identifier _).bind fun _ q hq _ _ => Guarded.pure hq trivial
  refine htype.bind fun type q hq _ _ => ?_
  refine (guarded_change hq _).bind fun _ w hw _ _ => ?_
  exact Guarded.pure hw trivial

theorem guarded_paramList (m : Nat) (hs : s.On tokens file) :
    Guarded tokens file (paramList m) s fun _ _ => True := by
  induction m generalizing s with
  | zero => exact guarded_unexpected hs _
  | succ m ih =>
    refine (guarded_param hs).bind fun p t ht _ _ => ?_
    exact guarded_separated ht fun r hr _ => ih hr

theorem guarded_params (m : Nat) (hs : s.On tokens file) :
    Guarded tokens file (params m) s fun _ _ => True :=
  guarded_enclosed hs fun _ ht _ => guarded_paramList m ht

theorem guarded_binding (hs : s.On tokens file) (hfuel : s.rest.length ≤ fuel) :
    Guarded tokens file (binding (expression .standard fuel .lowest)) s (Takes s) := by
  unfold binding
  refine (guarded_advance hs).bind fun lead t ht _ hlead => ?_
  have hlt := hlead.2
  refine (guarded_freshVariable ht _).bind fun name r hr hle _ => ?_
  refine (guarded_expect hr .assignment).discard fun _ q hq hle' _ => ?_
  refine (guardedExpr tokens file fuel .lowest hq (by omega)).bind fun e w hw hle'' _ => ?_
  refine (guarded_expect hw .semicolon).discard fun _ x hx hx' _ => ?_
  refine (guarded_change hx _).bind fun _ y hy hy' _ => ?_
  exact Guarded.pure hy (show y.rest.length < s.rest.length by omega)

theorem guarded_returning (hs : s.On tokens file) (hfuel : s.rest.length ≤ fuel) :
    Guarded tokens file (returning (expression .standard fuel .lowest)) s (Takes s) := by
  unfold returning
  refine (guarded_advance hs).discard fun _ t ht _ hlead => ?_
  have hlt := hlead.2
  refine (guardedExpr tokens file fuel .lowest ht (by omega)).bind fun e r hr hle _ => ?_
  refine (guarded_expect hr .semicolon).discard fun _ q hq hle' _ => ?_
  exact Guarded.pure hq (show q.rest.length < s.rest.length by omega)

/-- Only in front of a closing brace can a statement be read without taking a token. -/
def TakesUnlessClosing (s : State) (_ : Option Stmt) (t : State) : Prop :=
  s.pending.head?.map (·.kind) ≠ some .closeCurly → t.rest.length < s.rest.length

/-- With fuel for all tokens that are left, a statement fails only where there is blame. -/
def GuardedStmt (tokens : List Token) (file : String) (fuel : Nat) : Prop :=
  ∀ ⦃s : State⦄, s.On tokens file → s.rest.length ≤ fuel →
    Guarded tokens file (statement .standard fuel) s (TakesUnlessClosing s)

theorem guarded_turn {loop : Parser (List Stmt)} (h : GuardedStmt tokens file fuel)
    (hs : s.On tokens file) (hfuel : s.rest.length ≤ fuel)
    (hloop : ∀ r : State, r.On tokens file → r.rest.length ≤ s.rest.length →
      Guarded tokens file loop r fun _ _ => True) :
    Guarded tokens file (turn (statement .standard fuel) loop) s fun _ _ => True := by
  refine (h hs hfuel).bind fun stmt? r hr hle _ => ?_
  cases stmt? with
  | none => exact hloop r hr hle
  | some first =>
    refine (hloop r hr hle).bind fun body q hq _ _ => ?_
    exact Guarded.pure hq trivial

theorem guarded_blockBody (h : GuardedStmt tokens file fuel) (m : Nat) (hs : s.On tokens file)
    (hfuel : s.rest.length ≤ fuel) :
    Guarded tokens file (blockBody (statement .standard fuel) m) s fun _ _ => True := by
  induction m generalizing s with
  | zero => exact guarded_unexpected hs _
  | succ m ih =>
    unfold blockBody untilBrace stmtLoop
    refine (guarded_peekKind hs).bind fun kind t ht hle _ => ?_
    split
    · exact guarded_unexpected ht _
    · exact Guarded.pure ht trivial
    · exact guarded_turn h ht (by omega) fun r hr hle' => ih hr (by omega)

theorem guarded_block (h : GuardedStmt tokens file fuel) (m : Nat) (hs : s.On tokens file)
    (hfuel : s.rest.length ≤ fuel) :
    Guarded tokens file (block (some Rules.maxNesting) m (statement .standard fuel)) s
      fun _ _ => True := by
  unfold block blockOf
  refine (guarded_expect hs .openCurly).discard fun _ t ht hle _ => ?_
  have hbody : Guarded tokens file (nested (some Rules.maxNesting)
      (blockBody (statement .standard fuel) m)) t fun _ _ => True := by
    refine guarded_nested ht (fun r hr hrest => ?_) fun _ _ => id
    exact guarded_blockBody h m hr (by rw [hrest]; omega)
  refine hbody.bind fun body r hr _ _ => ?_
  refine (guarded_expect hr .closeCurly).discard fun _ q hq _ _ => ?_
  exact Guarded.pure hq trivial

theorem guarded_function (h : GuardedStmt tokens file fuel) (m k : Nat) (hs : s.On tokens file)
    (hfuel : s.rest.length ≤ fuel + 1) :
    Guarded tokens file
      (function m (block (some Rules.maxNesting) k (statement .standard fuel))) s (Takes s) := by
  unfold function functionOf
  refine (guarded_advance hs).discard fun _ t ht _ hlead => ?_
  have hlt := hlead.2
  refine (guarded_freshFunction ht).bind fun name r hr hle _ => ?_
  refine (guarded_change hr _).bind fun _ r' hr' hle' _ => ?_
  refine (guarded_change hr' _).bind fun _ q hq hle'' _ => ?_
  refine (guarded_params m hq).bind fun ps w hw hw' _ => ?_
  refine (guarded_expect hw .colon).discard fun _ x hx hx' _ => ?_
  refine (guarded_returnType hx).bind fun type y hy hy' _ => ?_
  refine (guarded_block h k hy (by omega)).bind fun body z hz hlez _ => ?_
  refine (guarded_expect hz .semicolon).discard fun _ z' hz' hlez' _ => ?_
  refine (guarded_change hz' _).bind fun _ z'' hz'' hlez'' _ => ?_
  exact Guarded.pure hz'' (show z''.rest.length < s.rest.length by omega)

theorem guardedStmt (tokens : List Token) (file : String) (fuel : Nat) :
    GuardedStmt tokens file fuel := by
  induction fuel with
  | zero =>
    intro s hs hfuel
    exact guarded_end hs hfuel _
  | succ fuel ih =>
    intro s hs hfuel
    unfold statement statementOf
    apply (guarded_peek hs).bind
    rintro _ t ht hle ⟨rfl, hpending, hreal⟩
    have hfuel' : t.rest.length ≤ fuel + 1 := by omega
    split
    · next hhead =>
      have hnil : t.rest.length ≤ 0 := by simpa using hhead
      exact guarded_end ht hnil _
    · next u hhead =>
      split
      · next hkind =>
        refine Guarded.pure ht fun hne => absurd ?_ hne
        rw [← hpending, hhead, Option.map_some, hkind]
      · refine (guarded_advance ht).discard fun _ r hr _ hu => ?_
        exact Guarded.pure hr fun _ => Nat.lt_of_lt_of_le hu.2 hle
      · split
        · next rule _ =>
          have hrule : Guarded tokens file
              (rule.parse .standard (fuel + 1) (statement .standard fuel)) t (Takes t) := by
            cases rule with
            | function => exact guarded_function ih _ _ ht hfuel'
            | binding => exact guarded_binding ht hfuel'
            | returning => exact guarded_returning ht hfuel'
          refine hrule.bind fun tree r hr _ hlt => ?_
          exact Guarded.pure hr fun _ => Nat.lt_of_lt_of_le hlt hle
        · refine (guardedExpr tokens file (fuel + 1) .lowest ht hfuel').bind
            fun e r hr _ hlt => ?_
          exact Guarded.pure hr fun _ => Nat.lt_of_lt_of_le hlt hle
      · exact guarded_unexpectedToken (hreal u hhead)

theorem guarded_topLevel (m : Nat) (hs : s.On tokens file) (hfuel : s.rest.length ≤ fuel) :
    Guarded tokens file (topLevel (statement .standard fuel) m) s fun _ _ => True := by
  induction m generalizing s with
  | zero => exact Guarded.pure hs trivial
  | succ m ih =>
    unfold topLevel untilEnd stmtLoop
    refine (guarded_peekKind hs).bind fun kind t ht hle hkind => ?_
    split
    · exact Guarded.pure ht trivial
    · obtain ⟨u, hhead, hu⟩ := Option.map_eq_some_iff.1 hkind.1.symm
      exact ends_failHere.2 (ht.blame_brace hhead hu)
    · exact guarded_turn (guardedStmt tokens file fuel) ht (by omega)
        fun r hr hle' => ih hr (by omega)

/-- A program that is not accepted fails where there is blame. -/
theorem guarded_program (tokens : List Token) (file : String) :
    Guarded tokens file (program .standard tokens.length) { rest := tokens, file }
      fun _ _ => True := by
  have hstart : State.On { rest := tokens, file } tokens file := ⟨⟨[], rfl, rfl⟩, rfl⟩
  unfold program programOf
  refine (guarded_change hstart _).bind fun _ s hs hle _ => ?_
  have hnames : Guarded tokens file (builtins.forM fun name => change (.function name)) s
      fun _ _ => True :=
    (guarded_change hs _).bind fun _ t ht _ _ => Guarded.pure ht trivial
  refine hnames.bind fun _ t ht hle' _ => ?_
  have hfuel : t.rest.length ≤ tokens.length := Nat.le_trans hle' hle
  refine (guarded_topLevel tokens.length ht hfuel).bind fun body r hr _ _ => ?_
  refine (guarded_change hr _).bind fun _ q hq _ _ => ?_
  exact ends_bind.2 (ends_modify.2 ⟨⟨hq.split, hq.file⟩, Nat.le_refl _, trivial⟩)

end Scopewise.Parse
