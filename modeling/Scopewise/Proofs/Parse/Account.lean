import Scopewise.Proofs.Parse.Moves
import Scopewise.Proofs.Replay

namespace Scopewise

/-- Whether a fault could only come from a parse that has lost track of its scopes or of the tokens
that it has looked at. -/
def Fault.isInternal : Fault → Bool
  | .scopeUnderflow => true
  | .unexpectedEnd expected => expected = "more input" || expected = "statement"
  | _ => false

theorem Token.Kind.isInternal_describe (kind : Kind) :
    (Fault.unexpectedEnd kind.describe).isInternal = false := by
  cases kind <;> decide

namespace Parse

open Scope

variable {α β : Type} {s t r : State}

/-- What reading an expression leaves as it is; the tokens ahead only get fewer. -/
structure State.Same (s t : State) : Prop where
  scopes : t.scopes = s.scopes
  journal : t.journal = s.journal
  depth : t.depth = s.depth
  shorter : t.rest.length ≤ s.rest.length

namespace State.Same

theorem refl (s : State) : s.Same s :=
  ⟨rfl, rfl, rfl, Nat.le_refl _⟩

theorem trans (h : s.Same t) (h' : t.Same r) : s.Same r :=
  ⟨h'.scopes.trans h.scopes, h'.journal.trans h.journal, h'.depth.trans h.depth,
    h'.shorter.trans h.shorter⟩

theorem skip (s : State) : s.Same s.skipNewlines :=
  ⟨rfl, rfl, rfl, s.skipNewlines_suffix.length_le⟩

theorem next (s : State) : s.Same s.next :=
  ⟨rfl, rfl, rfl, s.next_suffix.length_le⟩

theorem ascend (h : s.descend.Same t) : s.Same t.ascend where
  scopes := h.scopes
  journal := h.journal
  depth := by
    have hdepth : t.depth = s.depth + 1 := h.depth
    show t.depth - 1 = s.depth
    omega
  shorter := h.shorter

end State.Same

/-- `p` leaves scopes, journal and depth as they are, and fails only for a reason in the text. -/
def Steady (p : Parser α) (s : State) (good : α → State → Prop) : Prop :=
  Ends p s (fun a t => s.Same t ∧ good a t) fun e t =>
    s.Same t ∧ e.diagnostic.fault.isInternal = false

namespace Steady

variable {p : Parser α} {f : α → Parser β} {mid : α → State → Prop} {good : β → State → Prop}

theorem mono {mid' : α → State → Prop} (h : Steady p s mid)
    (hmid : ∀ a t, s.Same t → mid a t → mid' a t) : Steady p s mid' :=
  Ends.mono h (fun a t ha => ⟨ha.1, hmid a t ha.1 ha.2⟩) fun _ _ => id

theorem bind (hp : Steady p s mid) (hf : ∀ a t, s.Same t → mid a t → Steady (f a) t good) :
    Steady (p >>= f) s good := by
  refine ends_bind.2 (Ends.mono hp ?_ fun _ _ => id)
  intro a t ha
  refine Ends.mono (hf a t ha.1 ha.2) ?_ ?_
  · exact fun b r hb => ⟨ha.1.trans hb.1, hb.2⟩
  · exact fun e r he => ⟨ha.1.trans he.1, he.2⟩

theorem discard {f : Unit → Parser β} (hp : Steady p s mid)
    (hf : ∀ a t, s.Same t → mid a t → Steady (f ()) t good) :
    Steady (Functor.discard p >>= f) s good := by
  rw [discard_bind]
  exact hp.bind hf

theorem pure {a : α} (h : mid a s) : Steady (Pure.pure a) s mid :=
  ends_pure.2 ⟨.refl s, h⟩

theorem get {f : State → Parser β} (h : Steady (f s) s good) :
    Steady (MonadState.get >>= f) s good :=
  ends_bind.2 (ends_get.2 h)

theorem failAt {fault : Fault} {position : Position} (h : fault.isInternal = false) :
    Steady (Parse.failAt fault position) s mid :=
  ends_failAt.2 ⟨.refl s, h⟩

theorem failHere {fault : Fault} (h : fault.isInternal = false) :
    Steady (Parse.failHere fault) s mid :=
  ends_failHere.2 ⟨.refl s, h⟩

theorem unexpectedToken (u : Token) : Steady (Parse.unexpectedToken u) s mid :=
  failAt rfl

theorem peek : Steady Parse.peek s fun a t => a = s.pending.head? ∧ a = t.pending.head? :=
  ends_peek.2 ⟨.skip s, rfl, congrArg _ s.pending_skipNewlines.symm⟩

theorem peekKind : Steady Parse.peekKind s fun a t => a = t.pending.head?.map (·.kind) :=
  ends_peekKind.2 ⟨.skip s, by simp⟩

/-- A token is taken only after one has been seen. -/
theorem advance {kind : Token.Kind} (h : s.pending.head?.map (·.kind) = some kind) :
    Steady Parse.advance s fun a t => a.kind = kind ∧ t.rest.length < s.rest.length := by
  apply ends_advance.2
  cases hpending : s.pending with
  | nil => simp [hpending] at h
  | cons u us =>
    exact ⟨.next s, by simpa [hpending] using h, State.length_rest_next_lt hpending⟩

theorem unexpected {expected : String} (h : (Fault.unexpectedEnd expected).isInternal = false) :
    Steady (Parse.unexpected expected) s mid := by
  apply ends_unexpected.2
  cases s.pending with
  | nil => exact ⟨.skip s, h⟩
  | cons u us => exact ⟨.skip s, rfl⟩

theorem expectNamed {kind : Token.Kind} {expected : String}
    (h : (Fault.unexpectedEnd expected).isInternal = false) :
    Steady (Parse.expectNamed kind expected) s fun _ _ => True := by
  refine peekKind.bind fun k t _ hk => ?_
  split
  · next hkind => exact (advance (hk ▸ hkind)).mono fun _ _ _ _ => trivial
  · exact unexpected h

theorem expect {kind : Token.Kind} : Steady (Parse.expect kind) s fun _ _ => True :=
  expectNamed kind.isInternal_describe

/-- A level is left again whether what stands in it is read or refused. -/
theorem nested {bound : Nat} (h : Steady p s.descend fun _ _ => True) :
    Steady (Parse.nested (some bound) p) s fun _ _ => True := by
  apply ends_nested.2
  split
  · exact Ends.mono h (fun a t ha => ⟨ha.1.ascend, trivial⟩) fun e t he => ⟨he.1.ascend, he.2⟩
  · exact ⟨.refl s, rfl⟩

end Steady

section Expressions

variable {sub : Parser Expr} {subs : BindingPower → Parser Expr}

theorem steady_literal : Steady literal s fun _ _ => True := by
  refine Steady.expect.bind fun u t _ _ => ?_
  split
  · exact .pure trivial
  · exact .failAt rfl

theorem steady_argumentList (h : ∀ s, Steady sub s fun _ _ => True) (n : Nat) :
    Steady (argumentList sub n) s fun _ _ => True := by
  induction n generalizing s with
  | zero => exact (h s).discard fun _ t _ _ => .unexpected (by decide)
  | succ n ih =>
    refine (h s).bind fun first t _ _ => Steady.peekKind.bind fun kind r _ hkind => ?_
    split
    · refine (Steady.advance hkind.symm).discard fun _ _ _ _ => ?_
      exact ih.bind fun _ _ _ _ => .pure trivial
    · exact (Steady.advance hkind.symm).discard fun _ _ _ _ => .pure trivial
    · exact .unexpected (by decide)

theorem steady_arguments (h : ∀ s, Steady sub s fun _ _ => True) (n : Nat) :
    Steady (arguments n sub) s fun _ _ => True := by
  refine Steady.expect.discard fun _ t _ _ => Steady.peekKind.bind fun kind r _ hkind => ?_
  split
  · next hclose => exact (Steady.advance (hkind ▸ hclose)).discard fun _ _ _ _ => .pure trivial
  · exact steady_argumentList h n

theorem steady_reference (h : ∀ s, Steady sub s fun _ _ => True) (n : Nat) :
    Steady (reference n sub) s fun _ _ => True := by
  refine Steady.expect.bind fun u t _ _ => Steady.peekKind.bind fun kind r _ _ => ?_
  split
  · apply Steady.get
    split
    · exact (steady_arguments h n).bind fun _ _ _ _ => .pure trivial
    · exact .failAt rfl
  · apply Steady.get
    split
    · exact .pure trivial
    · exact .failAt rfl

theorem steady_signed (h : ∀ power s, Steady (subs power) s fun _ _ => True) {kind : Token.Kind}
    (hs : s.pending.head?.map (·.kind) = some kind) :
    Steady (signed subs) s fun _ _ => True := by
  refine (Steady.advance hs).bind fun u t _ _ => ?_
  split
  · exact (h _ t).bind fun _ _ _ _ => .pure trivial
  · exact .unexpectedToken u

theorem steady_group (h : ∀ s, Steady sub s fun _ _ => True) :
    Steady (group sub) s fun _ _ => True := by
  refine Steady.expect.discard fun _ t _ _ => (h t).bind fun _ r _ _ => ?_
  exact Steady.expect.discard fun _ _ _ _ => .pure trivial

theorem steady_operand (h : ∀ power s, Steady (subs power) s fun _ _ => True) (n : Nat) :
    Steady (operand .standard n subs) s fun _ _ => True := by
  refine Steady.peek.bind fun token? t _ htoken => ?_
  split
  · exact .failHere (by decide)
  · next u =>
    split
    · exact .unexpectedToken u
    · next rule _ =>
      have hhead : t.pending.head?.map (·.kind) = some u.kind := by rw [← htoken.2]; rfl
      cases rule with
      | literal => exact steady_literal
      | name => exact steady_reference (h _) n
      | sign => exact steady_signed h hhead
      | group => exact steady_group (h _)

theorem steady_binary (h : ∀ power s, Steady (subs power) s fun _ _ => True) (left : Expr)
    (power : BindingPower) {kind : Token.Kind} (hs : s.pending.head?.map (·.kind) = some kind) :
    Steady (binary subs left power) s fun _ _ => True := by
  refine (Steady.advance hs).bind fun u t _ _ => ?_
  split
  · exact (h _ t).bind fun _ _ _ _ => .pure trivial
  · exact .unexpectedToken u

theorem steady_operators (h : ∀ power s, Steady (subs power) s fun _ _ => True)
    (floor : BindingPower) (n : Nat) (left : Expr) :
    Steady (operators .standard subs floor n left) s fun _ _ => True := by
  induction n generalizing s left with
  | zero => exact .pure trivial
  | succ n ih =>
    refine Steady.peekKind.bind fun kind? t _ hkind => ?_
    split
    · exact .pure trivial
    · next power hpower =>
      obtain ⟨kind, rfl, -⟩ := Option.bind_eq_some_iff.1 hpower
      split
      · exact .pure trivial
      · exact (steady_binary h left power hkind.symm).bind fun e _ _ _ => ih e

theorem steady_expression (n : Nat) (floor : BindingPower) (s : State) :
    Steady (expression .standard n floor) s fun _ _ => True := by
  induction n generalizing floor s with
  | zero => exact .nested (.failHere (by decide))
  | succ n ih =>
    refine .nested ((steady_operand ih n).bind fun left t _ _ => ?_)
    exact steady_operators ih floor n left

end Expressions

/-- `p` ends in `good` with no more tokens ahead, or fails for a reason in the text. -/
def Sound (p : Parser α) (s : State) (good : α → State → Prop) : Prop :=
  Ends p s (fun a t => t.rest.length ≤ s.rest.length ∧ good a t) fun e _ =>
    e.diagnostic.fault.isInternal = false

namespace Sound

variable {p : Parser α} {f : α → Parser β} {mid : α → State → Prop} {good : β → State → Prop}

theorem mono {mid' : α → State → Prop} (h : Sound p s mid) (hmid : ∀ a t, mid a t → mid' a t) :
    Sound p s mid' :=
  Ends.mono h (fun a t ha => ⟨ha.1, hmid a t ha.2⟩) fun _ _ => id

theorem bind (hp : Sound p s mid)
    (hf : ∀ a t, t.rest.length ≤ s.rest.length → mid a t → Sound (f a) t good) :
    Sound (p >>= f) s good := by
  refine ends_bind.2 (Ends.mono hp ?_ fun _ _ => id)
  intro a t ha
  refine Ends.mono (hf a t ha.1 ha.2) ?_ fun _ _ => id
  exact fun b r hb => ⟨hb.1.trans ha.1, hb.2⟩

theorem pure {a : α} (h : mid a s) : Sound (Pure.pure a) s mid :=
  ends_pure.2 ⟨Nat.le_refl _, h⟩

end Sound

theorem Steady.sound {p : Parser α} {good : α → State → Prop} (h : Steady p s good) :
    Sound p s fun a t => s.Same t ∧ good a t :=
  Ends.mono h (fun _ _ ha => ⟨ha.1.shorter, ha⟩) fun _ _ he => he.2

/-- The scopes of the state are those of the chain, and its journal holds the events. -/
structure State.Logged (s : State) (chain : Chain) (events : List Event) : Prop where
  follows : Follows s.scopes.scopes chain
  journal : s.journal.toList = events

variable {chain outer : Chain} {frame : Frame} {events : List Event}

theorem State.Logged.same (h : s.Logged chain events) (hs : s.Same t) : t.Logged chain events :=
  ⟨hs.scopes ▸ h.follows, hs.journal ▸ h.journal⟩

/-- A move that leaves the scopes and the journal alone, in front of one that may not. -/
theorem Steady.then {p : Parser α} {f : α → Parser β} {mid : α → State → Prop}
    {good : β → State → Prop} (hp : Steady p s mid) (hs : s.Logged chain events)
    (hf : ∀ a t, t.Logged chain events → t.rest.length ≤ s.rest.length → mid a t →
      Sound (f a) t good) : Sound (p >>= f) s good :=
  hp.sound.bind fun a t hle ha => hf a t (hs.same ha.1) hle ha.2

theorem Steady.discardThen {p : Parser α} {f : Unit → Parser β} {mid : α → State → Prop}
    {good : β → State → Prop} (hp : Steady p s mid) (hs : s.Logged chain events)
    (hf : ∀ a t, t.Logged chain events → t.rest.length ≤ s.rest.length → mid a t →
      Sound (f ()) t good) : Sound (Functor.discard p >>= f) s good := by
  rw [discard_bind]
  exact hp.then hs hf

section Changes

/-- A change of the scopes that has a scope to go to is made and recorded. -/
theorem sound_change {change : Change} {chain' : Chain} {records : List Event}
    (hs : s.Logged chain events)
    (hafter : ∃ next, s.scopes.after? change = some next ∧ Follows next.scopes chain')
    (hevents : s.scopes.events change = records) :
    Sound (Parse.change change) s fun _ t => t.Logged chain' (events ++ records) := by
  obtain ⟨next, hnext, hfollows⟩ := hafter
  apply ends_change.2
  rw [hnext, hevents]
  refine ⟨Nat.le_refl _, hfollows, ?_⟩
  show (s.journal ++ records).toList = events ++ records
  rw [Array.toList_appendList, hs.journal]

theorem State.Logged.enter (hs : s.Logged chain events) :
    Sound (change .enter) s fun _ t =>
      t.Logged chain.enter (events ++ [.entered (chain.length + 1)]) := by
  refine sound_change hs hs.follows.enter ?_
  rw [← hs.follows.depth]
  rfl

theorem State.Logged.exit (hs : s.Logged (frame :: outer) events) :
    Sound (change .exit) s fun _ t => t.Logged outer (events ++ [.exited outer.length]) := by
  refine sound_change hs hs.follows.exit ?_
  obtain ⟨scope, scopes, htable, -, hscopes⟩ := hs.follows.exists_current
  have hleft : Follows (Table.mk scopes).scopes outer := hscopes
  rw [htable, ← hleft.depth]
  rfl

/-- A variable is recorded as the chain announces it. -/
theorem State.Logged.declareVariable (hs : s.Logged (frame :: outer) events) (x : String)
    (m : Mutability) :
    Sound (change (.variable x m)) s fun _ t =>
      t.Logged (Chain.declareVariable (frame :: outer) x m)
        (events ++ [Chain.announce (frame :: outer) x m]) := by
  refine sound_change hs (hs.follows.declareVariable x m) ?_
  obtain ⟨scope, scopes, htable, hscope, -⟩ := hs.follows.exists_current
  rw [htable, Chain.announce, ← hscope.mutability x]
  simp only [Table.events]
  cases scope.mutability? x <;> rfl

theorem State.Logged.declareFunction (hs : s.Logged (frame :: outer) events) (x : String) :
    Sound (change (.function x)) s fun _ t =>
      t.Logged (Chain.declareFunction (frame :: outer) x) (events ++ [.functionDeclared x]) :=
  sound_change hs (hs.follows.declareFunction x) rfl

end Changes

section Statements

theorem steady_freshVariable {expected : String}
    (h : (Fault.unexpectedEnd expected).isInternal = false) :
    Steady (freshVariable expected) s fun _ _ => True := by
  refine (Steady.expectNamed h).bind fun u t _ _ => .get ?_
  split
  · exact .failAt rfl
  · exact .pure trivial

theorem steady_freshFunction : Steady freshFunction s fun _ _ => True := by
  refine (Steady.expectNamed (by decide)).bind fun u t _ _ => .get ?_
  split
  · exact .failAt rfl
  · exact .pure trivial

theorem steady_paramType : Steady paramType s fun _ _ => True :=
  (Steady.expectNamed (by decide)).bind fun _ _ _ _ => .pure trivial

theorem steady_returnType : Steady returnType s fun _ _ => True := by
  refine (Steady.expectNamed (by decide)).bind fun u t _ _ => ?_
  split
  · exact .pure trivial
  · exact .failAt rfl

theorem sound_param (hs : s.Logged (frame :: outer) events) :
    Sound param s fun p t =>
      t.Logged (Chain.declareVariable (frame :: outer) p.name .immutable)
        (events ++ [Chain.announce (frame :: outer) p.name .immutable]) := by
  refine (steady_freshVariable (by decide)).then hs fun name t ht _ _ => ?_
  refine Steady.expect.discardThen ht fun _ t ht _ _ => ?_
  refine steady_paramType.then ht fun type t ht _ _ => ?_
  exact (ht.declareVariable name .immutable).bind fun _ t _ ht => .pure ht

/-- The parameters `ps` have been read and declared. -/
def LoggedParams (chain : Chain) (events : List Event) (ps : List Param) (t : State) : Prop :=
  t.Logged (Param.declareAll chain ps) (events ++ Param.replayAll chain ps)

theorem sound_paramList (n : Nat) (hs : s.Logged (frame :: outer) events) :
    Sound (paramList n) s (LoggedParams (frame :: outer) events) := by
  induction n generalizing s frame events with
  | zero => exact (Steady.unexpected (by decide)).sound.mono fun _ _ => And.right
  | succ n ih =>
    refine (sound_param hs).bind fun p t _ ht => ?_
    refine Steady.peekKind.then ht fun kind t ht _ hkind => ?_
    split
    · refine (Steady.advance hkind.symm).discardThen ht fun _ t ht _ _ => ?_
      refine (ih ht).bind fun ps t _ hps => .pure ?_
      unfold LoggedParams at hps ⊢
      rw [List.append_assoc] at hps
      exact hps
    · exact (Steady.advance hkind.symm).discardThen ht fun _ t ht _ _ => .pure ht
    · exact (Steady.unexpected (by decide)).sound.mono fun _ _ => And.right

theorem sound_params (n : Nat) (hs : s.Logged (frame :: outer) events) :
    Sound (params n) s (LoggedParams (frame :: outer) events) := by
  refine Steady.expect.discardThen hs fun _ t ht _ _ => ?_
  refine Steady.peekKind.then ht fun kind t ht _ hkind => ?_
  split
  · next hclose =>
    refine (Steady.advance (hkind ▸ hclose)).discardThen ht fun _ t ht _ _ => .pure ?_
    show t.Logged (frame :: outer) (events ++ [])
    rwa [List.append_nil]
  · exact sound_paramList n ht

/-- The statements `ss` have been read and declared. -/
def LoggedStmts (chain : Chain) (events : List Event) (ss : List Stmt) (t : State) : Prop :=
  t.Logged (Stmt.declareAll chain ss) (events ++ Stmt.replayAll chain ss)

theorem loggedStmts_nil : LoggedStmts chain events [] s ↔ s.Logged chain events := by
  unfold LoggedStmts
  rw [Stmt.replayAll, List.append_nil]
  rfl

theorem loggedStmts_singleton {stmt : Stmt} :
    LoggedStmts chain events [stmt] s ↔
      s.Logged (stmt.declare chain) (events ++ stmt.replay chain) := by
  unfold LoggedStmts
  rw [Stmt.replayAll, Stmt.replayAll, List.append_nil]
  rfl

/-- Statements behind a first one are replayed in the chain that it leaves. -/
theorem loggedStmts_cons {stmt : Stmt} {stmts : List Stmt} :
    LoggedStmts chain events (stmt :: stmts) s ↔
      LoggedStmts (stmt.declare chain) (events ++ stmt.replay chain) stmts s := by
  unfold LoggedStmts
  rw [Stmt.replayAll, List.append_assoc]
  rfl

theorem sound_binding {value : Parser Expr} (hvalue : ∀ s, Steady value s fun _ _ => True)
    {kind : Token.Kind} (hs : s.Logged (frame :: outer) events)
    (hkind : s.pending.head?.map (·.kind) = some kind) :
    Sound (binding value) s fun stmt => LoggedStmts (frame :: outer) events [stmt] := by
  refine (Steady.advance hkind).then hs fun lead t ht _ _ => ?_
  refine (steady_freshVariable (by decide)).then ht fun name t ht _ _ => ?_
  refine Steady.expect.discardThen ht fun _ t ht _ _ => ?_
  refine (hvalue t).then ht fun e t ht _ _ => ?_
  refine Steady.expect.discardThen ht fun _ t ht _ _ => ?_
  refine (ht.declareVariable name _).bind fun _ t _ ht => .pure ?_
  exact loggedStmts_singleton.2 ht

theorem sound_returning {value : Parser Expr} (hvalue : ∀ s, Steady value s fun _ _ => True)
    {kind : Token.Kind} (hs : s.Logged chain events)
    (hkind : s.pending.head?.map (·.kind) = some kind) :
    Sound (returning value) s fun stmt => LoggedStmts chain events [stmt] := by
  refine (Steady.advance hkind).discardThen hs fun _ t ht _ _ => ?_
  refine (hvalue t).then ht fun e t ht _ _ => ?_
  refine Steady.expect.discardThen ht fun _ t ht _ _ => .pure ?_
  apply loggedStmts_singleton.2
  show t.Logged chain (events ++ [])
  rwa [List.append_nil]

/-- A statement in front of a token, with fuel for all that are left, does what a replay of its tree
does. -/
def SoundStmt (stmt : Parser (Option Stmt)) (fuel : Nat) : Prop :=
  ∀ ⦃s : State⦄ ⦃frame : Frame⦄ ⦃outer : Chain⦄ ⦃events : List Event⦄ ⦃kind : Token.Kind⦄,
    s.Logged (frame :: outer) events → s.pending.head?.map (·.kind) = some kind →
    s.rest.length ≤ fuel →
    Sound stmt s fun stmt? => LoggedStmts (frame :: outer) events stmt?.toList

variable {stmt : Parser (Option Stmt)} {fuel : Nat}

theorem sound_turn {loop : Parser (List Stmt)} {kind : Token.Kind} (h : SoundStmt stmt fuel)
    (hs : s.Logged (frame :: outer) events) (hkind : s.pending.head?.map (·.kind) = some kind)
    (hfuel : s.rest.length ≤ fuel)
    (hloop : ∀ (r : State) (frame : Frame) (events : List Event),
      r.Logged (frame :: outer) events → r.rest.length ≤ fuel →
      Sound loop r (LoggedStmts (frame :: outer) events)) :
    Sound (turn stmt loop) s (LoggedStmts (frame :: outer) events) := by
  refine (h hs hkind hfuel).bind fun stmt? t hle ht => ?_
  cases stmt? with
  | none => exact hloop t frame events (loggedStmts_nil.1 ht) (by omega)
  | some first =>
    have hfirst := loggedStmts_singleton.1 ht
    obtain ⟨frame', hframe⟩ := Stmt.exists_frame_declare frame outer first
    rw [hframe] at hfirst
    refine (hloop t frame' _ hfirst (by omega)).bind fun rest r _ hr => .pure ?_
    rw [← hframe] at hr
    exact loggedStmts_cons.2 hr

theorem sound_blockBody (h : SoundStmt stmt fuel) (n : Nat)
    (hs : s.Logged (frame :: outer) events) (hfuel : s.rest.length ≤ fuel) :
    Sound (blockBody stmt n) s (LoggedStmts (frame :: outer) events) := by
  induction n generalizing s frame events with
  | zero => exact (Steady.unexpected (by decide)).sound.mono fun _ _ => And.right
  | succ n ih =>
    refine Steady.peekKind.then hs fun kind? t ht hle hkind => ?_
    split
    · exact (Steady.unexpected (by decide)).sound.mono fun _ _ => And.right
    · exact .pure (loggedStmts_nil.2 ht)
    · exact sound_turn h ht hkind.symm (by omega) fun r _ _ hr hle' => ih hr hle'

theorem sound_block (h : SoundStmt stmt fuel) (n : Nat) (hs : s.Logged (frame :: outer) events)
    (hfuel : s.rest.length ≤ fuel) :
    Sound (block (some Rules.maxNesting) n stmt) s (LoggedStmts (frame :: outer) events) := by
  refine Steady.expect.discardThen hs fun _ t ht hle _ => ?_
  have hbody : Sound (nested (some Rules.maxNesting) (blockBody stmt n)) t
      (LoggedStmts (frame :: outer) events) := by
    apply ends_nested.2
    split
    · have hdescend : t.descend.Logged (frame :: outer) events := ⟨ht.follows, ht.journal⟩
      refine Ends.mono (sound_blockBody h n hdescend (hle.trans hfuel)) ?_ fun _ _ => id
      exact fun body r hr => ⟨hr.1, hr.2.follows, hr.2.journal⟩
    · rfl
  refine hbody.bind fun body r _ hr => ?_
  exact Steady.expect.discardThen hr fun _ q hq _ _ => .pure hq

theorem sound_function (h : SoundStmt stmt fuel) (n m : Nat) {kind : Token.Kind}
    (hs : s.Logged (frame :: outer) events) (hkind : s.pending.head?.map (·.kind) = some kind)
    (hfuel : s.rest.length ≤ fuel + 1) :
    Sound (function n (block (some Rules.maxNesting) m stmt)) s fun stmt =>
      LoggedStmts (frame :: outer) events [stmt] := by
  refine (Steady.advance hkind).discardThen hs fun _ t ht _ hlead => ?_
  have hlt := hlead.2
  refine steady_freshFunction.then ht fun name t ht hname _ => ?_
  -- the name goes to the frame around the body, which is entered behind it
  refine (ht.declareFunction name).bind fun _ t hnamed ht => ?_
  refine ht.enter.bind fun _ t hentered ht => ?_
  refine (sound_params n ht).bind fun ps t hparams hps => ?_
  obtain ⟨inner, hinner⟩ :=
    Param.exists_frame_declareAll {} (Chain.declareFunction (frame :: outer) name) ps
  unfold LoggedParams at hps
  rw [hinner] at hps
  refine Steady.expect.discardThen hps fun _ t ht hcolon _ => ?_
  refine steady_returnType.then ht fun type t ht htype _ => ?_
  refine (sound_block h m ht (by omega)).bind fun body t _ hbody => ?_
  refine Steady.expect.discardThen hbody fun _ t ht _ _ => ?_
  obtain ⟨inner', hinner'⟩ :=
    Stmt.exists_frame_declareAll inner (Chain.declareFunction (frame :: outer) name) body
  rw [hinner'] at ht
  -- what the parameters and the body declared is dropped with the frame that holds it
  refine ht.exit.bind fun _ t _ ht => .pure (loggedStmts_singleton.2 ?_)
  simp only [Stmt.replay, Stmt.declare, Chain.enter, hinner]
  simpa [Chain.declareFunction] using ht

theorem sound_statement (fuel : Nat) : SoundStmt (statement .standard fuel) fuel := by
  induction fuel with
  | zero =>
    intro s frame outer events kind hs hkind hfuel
    have hle : s.pending.length ≤ s.rest.length := List.length_filter_le _ _
    have hnil : s.pending = [] := List.eq_nil_of_length_eq_zero (by omega)
    simp [hnil] at hkind
  | succ fuel ih =>
    intro s frame outer events kind hs hkind hfuel
    refine Steady.peek.then hs fun token? t ht hle htoken => ?_
    split
    · rw [← htoken.1] at hkind
      cases hkind
    · next u =>
      have hhead : t.pending.head?.map (·.kind) = some u.kind := by rw [← htoken.2]; rfl
      have hfuel' : t.rest.length ≤ fuel + 1 := hle.trans hfuel
      split
      · exact .pure (loggedStmts_nil.2 ht)
      · refine (Steady.advance hhead).discardThen ht fun _ t ht _ _ => .pure ?_
        exact loggedStmts_nil.2 ht
      · split
        · next rule _ =>
          have hrule : Sound (rule.parse .standard (fuel + 1) (statement .standard fuel)) t
              fun stmt => LoggedStmts (frame :: outer) events [stmt] := by
            cases rule with
            | function => exact sound_function ih _ _ ht hhead hfuel'
            | binding => exact sound_binding (steady_expression _ _) ht hhead
            | returning => exact sound_returning (steady_expression _ _) ht hhead
          exact hrule.bind fun _ _ _ htree => .pure htree
        · refine (steady_expression _ _ t).then ht fun e t ht _ _ => .pure ?_
          apply loggedStmts_singleton.2
          show t.Logged (frame :: outer) (events ++ [])
          rwa [List.append_nil]
      · exact (Steady.unexpectedToken u).sound.mono fun _ _ => And.right

theorem sound_topLevel (n : Nat) (hs : s.Logged (frame :: outer) events)
    (hfuel : s.rest.length ≤ fuel) :
    Sound (topLevel (statement .standard fuel) n) s (LoggedStmts (frame :: outer) events) := by
  induction n generalizing s frame events with
  | zero => exact .pure (loggedStmts_nil.2 hs)
  | succ n ih =>
    refine Steady.peekKind.then hs fun kind? t ht hle hkind => ?_
    split
    · exact .pure (loggedStmts_nil.2 ht)
    · exact (Steady.failHere rfl).sound.mono fun _ _ => And.right
    · exact sound_turn (sound_statement fuel) ht hkind.symm (by omega)
        fun r _ _ hr hle' => ih hr hle'

/-- A program leaves no scope open and the journal that its tree calls for, or it fails for a reason
in the text. -/
theorem sound_program (tokens : List Token) (file : String) :
    Sound (program .standard tokens.length) { rest := tokens, file } fun trees t =>
      t.scopes.scopes = [] ∧ t.journal.toList = Stmt.replayProgram trees := by
  have hstart : State.Logged { rest := tokens, file } [] [] := ⟨.nil, rfl⟩
  refine hstart.enter.bind fun _ s hle hs => ?_
  have hbuiltins : Sound (builtins.forM fun name => change (.function name)) s fun _ t =>
      t.Logged [{ functions := ["echo"] }] [.entered 1, .functionDeclared "echo"] :=
    (hs.declareFunction "echo").bind fun _ t _ ht => .pure ht
  refine hbuiltins.bind fun _ s hle' hs => ?_
  have hfuel : s.rest.length ≤ tokens.length := hle'.trans hle
  refine (sound_topLevel tokens.length hs hfuel).bind fun trees s _ hs => ?_
  obtain ⟨frame, hframe⟩ := Stmt.exists_frame_declareAll { functions := ["echo"] } [] trees
  unfold LoggedStmts at hs
  rw [hframe] at hs
  refine hs.exit.bind fun _ s _ hs => ?_
  refine ends_bind.2 (ends_modify.2 (ends_pure.2 ⟨Nat.le_refl _, ?_, ?_⟩))
  · exact List.eq_nil_of_length_eq_zero hs.follows.depth
  · show (s.journal.push (.parsed trees.length)).toList = Stmt.replayProgram trees
    rw [Array.toList_push, hs.journal]
    simp [Stmt.replayProgram]

end Statements

end Parse

end Scopewise
