import Mathlib.Data.Fintype.EquivFin
import Scopewise.Proofs.Parse.AnswerStmt
import Scopewise.Proofs.Parse.ViableExpr

namespace Scopewise

namespace Scope.Chain

theorem exists_not_hasLocalVariable (chain : Chain) : ∃ x, chain.hasLocalVariable x = false := by
  cases chain with
  | nil => exact ⟨"", rfl⟩
  | cons frame outer =>
    obtain ⟨x, hx⟩ := Infinite.exists_notMem_finset (frame.bindings.map Prod.fst).toFinset
    refine ⟨x, ?_⟩
    have hnone : frame.bindings.lookup x = none := by
      rw [List.lookup_eq_none_iff]
      intro p hp
      have hne : x ≠ p.1 := by
        rintro rfl
        exact hx (List.mem_toFinset.2 (List.mem_map_of_mem hp))
      simpa using hne
    simp [hasLocalVariable, hnone]

theorem exists_not_hasLocalFunction (chain : Chain) : ∃ x, chain.hasLocalFunction x = false := by
  cases chain with
  | nil => exact ⟨"", rfl⟩
  | cons frame outer =>
    obtain ⟨x, hx⟩ := Infinite.exists_notMem_finset frame.functions.toFinset
    exact ⟨x, by simpa [hasLocalFunction] using hx⟩

end Scope.Chain

namespace Parse

open Grammar Scope

variable {β : Type} {s t r : State} {us vs : List Token} {frame : Frame} {outer chain : Chain}
  {depth fuel : Nat} {c c' : Chain}

namespace Viable

variable {lang : Language} {good : State → Prop}

theorem change {f : Unit → Parser β} {step : Scope.Change}
    (hstep : ∀ table : Table, Follows table.scopes chain →
      ∃ next, table.after? step = some next ∧ Follows next.scopes c)
    (hf : ∀ t, Took s [] t → Viable c depth (f ()) t lang good) :
    Viable chain depth (Parse.change step >>= f) s lang good := by
  intro hfollows hdepth
  obtain ⟨next, hnext, hc⟩ := hstep s.scopes hfollows
  refine ends_bind.2 (ends_change.2 ?_)
  simp only [hnext]
  have htook (t : State) (hrest : t.rest = s.rest) (ht : t.depth = s.depth) : Took s [] t :=
    ⟨congrArg (List.filter _) hrest.symm, ht⟩
  exact behind (htook _ rfl rfl) (hf _ (htook _ rfl rfl)) hc hdepth

theorem failAt_bind {α : Type} {f : α → Parser β} {fault : Fault} {position : Position}
    (h : ∀ expected, fault ≠ .unexpectedEnd expected) :
    Viable chain depth (Parse.failAt fault position >>= f) s lang good :=
  fun _ _ => ends_bind.2 (ends_failAt.2 fun hshort => absurd hshort (not_short h))

/-- A name that the innermost frame has not declared: `declared` asks the scopes, and `known` says
what they answer. -/
theorem fresh {f : String → Parser β} {expected : String} (declared : Table → String → Bool)
    (fault : String → Fault) {known : String → Bool}
    (hknown : ∀ table : Table, Follows table.scopes chain → ∀ x, declared table x = known x)
    (hfault : ∀ x expected, fault x ≠ .unexpectedEnd expected)
    (hopen : depth < Rules.maxNesting → lang.Opens)
    (hf : ∀ u t, u.kind = .identifier → known u.value = false → Took s [u] t →
      Viable chain depth (f u.value) t (lang.after [u]) good) :
    Viable chain depth ((do
      let token ← Parse.expectNamed .identifier expected
      if declared (← MonadState.get).scopes token.value then
        Parse.failAt (fault token.value) token.position
      else
        return token.value) >>= f) s lang good := by
  rw [bind_assoc]
  refine .expectNamed hopen fun u t hu ht => ?_
  rw [bind_assoc]
  refine .get fun hfollows => ?_
  rw [hknown _ hfollows]
  cases hname : known u.value with
  | true => exact .failAt_bind (hfault u.value)
  | false => exact hf u t hu hname ht

theorem freshVariable {f : String → Parser β} {expected : String}
    (hopen : depth < Rules.maxNesting → lang.Opens)
    (hf : ∀ u t, u.kind = .identifier → chain.hasLocalVariable u.value = false → Took s [u] t →
      Viable chain depth (f u.value) t (lang.after [u]) good) :
    Viable chain depth (Parse.freshVariable expected >>= f) s lang good :=
  fresh Table.hasLocalVariable .variableRedeclared (fun _ h => h.hasLocalVariable) nofun hopen hf

theorem freshFunction {f : String → Parser β} (hopen : depth < Rules.maxNesting → lang.Opens)
    (hf : ∀ u t, u.kind = .identifier → chain.hasLocalFunction u.value = false → Took s [u] t →
      Viable chain depth (f u.value) t (lang.after [u]) good) :
    Viable chain depth (Parse.freshFunction >>= f) s lang good :=
  fresh Table.hasLocalFunction .functionRedeclared (fun _ h => h.hasLocalFunction) nofun hopen hf

theorem returnType {f : ReturnType → Parser β} (hopen : depth < Rules.maxNesting → lang.Opens)
    (hf : ∀ type u t, u.kind = .identifier → (ReturnType.ofName? u.value).isSome = true →
      Took s [u] t → Viable chain depth (f type) t (lang.after [u]) good) :
    Viable chain depth (Parse.returnType >>= f) s lang good := by
  unfold Parse.returnType
  rw [bind_assoc]
  refine .expectNamed hopen fun u t hu ht => ?_
  cases htype : ReturnType.ofName? u.value with
  | none => exact .failAt_bind nofun
  | some type => exact hf type u t hu (by rw [htype]; rfl) ht

/-- What is read begins with the next token. -/
theorem headed {α : Type} {p : Parser α} {u : Token} (h : Viable chain depth p s lang good)
    (hhead : s.pending.head? = some u) (hpos : ∀ us c, lang us c → 0 < us.length) :
    Viable chain depth p s (fun us c => ∃ vs, us = u :: vs ∧ lang us c) good := by
  intro hfollows hdepth
  refine Ends.mono (h hfollows hdepth) ?_ ?_
  · rintro a t ⟨⟨us, c, htook, hc, hus⟩, ht⟩
    obtain ⟨v, vs, rfl⟩ := List.exists_cons_of_length_pos (hpos us c hus)
    obtain rfl : v = u := htook.head_eq hhead
    exact ⟨⟨v :: vs, c, htook, hc, vs, rfl, hus⟩, ht⟩
  · intro e t he hshort
    obtain ⟨hlt, more, c, hmore⟩ := he hshort
    obtain ⟨vs, hvs⟩ := List.head?_eq_some_iff.1 hhead
    exact ⟨hlt, more, c, vs ++ more, by rw [hvs]; rfl, hmore⟩

end Viable

/-- A parameter whose name is new. -/
def SenseParam (chain : Chain) : Language := fun us c =>
  ∃ name colon type : Token, us = [name, colon, type] ∧ name.kind = .identifier ∧
    colon.kind = .colon ∧ type.kind = .identifier ∧ chain.hasLocalVariable name.value = false ∧
    c = chain.declareVariable name.value .immutable

/-- Parameters, and the parenthesis that closes them. -/
def SenseParams (chain : Chain) : Language := fun us c =>
  ∃ ps, Parameters id us ps ∧ Clause.paramViolations id chain ps = [] ∧
    c = Param.declareAll chain (ps.map (Clause.param id))

def SenseSignature (chain : Chain) : Language := fun us c =>
  ∃ ps, Signature id us ps ∧ Clause.paramViolations id chain ps = [] ∧
    c = Param.declareAll chain (ps.map (Clause.param id))

theorem SenseParams.last {close : Token} (h : SenseParam chain us c)
    (hclose : close.kind = .closeParen) : SenseParams chain (us ++ [close]) c := by
  obtain ⟨name, colon, type, rfl, hname, hcolon, htype, hlocal, rfl⟩ := h
  refine ⟨[(name, type)], .last hname hcolon htype hclose, ?_, rfl⟩
  simpa [Clause.paramViolations] using hlocal

theorem SenseParams.cons {comma : Token} (h : SenseParam chain us c) (hcomma : comma.kind = .comma)
    (h' : SenseParams c vs c') : SenseParams chain (us ++ comma :: vs) c' := by
  obtain ⟨name, colon, type, rfl, hname, hcolon, htype, hlocal, rfl⟩ := h
  obtain ⟨ps, hps, hnil, rfl⟩ := h'
  refine ⟨(name, type) :: ps, .cons hname hcolon htype hcomma hps, ?_, rfl⟩
  have hnil' : Clause.paramViolations id
      (chain.declareVariable (id name : Token).value .immutable) ps = [] := hnil
  rw [Clause.paramViolations, hnil', List.append_nil, ensure_eq_nil_iff]
  simpa using hlocal

theorem senseSignature_nil {l close : Token} (hl : l.kind = .openParen)
    (hclose : close.kind = .closeParen) : SenseSignature chain [l, close] chain :=
  ⟨[], .nil hl hclose, rfl, rfl⟩

theorem SenseParams.signature {l : Token} (hl : l.kind = .openParen) (h : SenseParams chain us c) :
    SenseSignature chain (l :: us) c := by
  obtain ⟨ps, hps, hrest⟩ := h
  exact ⟨ps, .params hl hps, hrest⟩

theorem opens_senseParam (chain : Chain) : (SenseParam chain).Opens := by
  obtain ⟨x, hx⟩ := chain.exists_not_hasLocalVariable
  exact ⟨_, _, completion .identifier x, completion .colon ":", completion .identifier "int",
    rfl, rfl, rfl, rfl, hx, rfl⟩

theorem SenseSignature.exists_frame (h : SenseSignature (frame :: outer) us c) :
    ∃ frame', c = frame' :: outer := by
  obtain ⟨ps, -, -, rfl⟩ := h
  exact Param.exists_frame_declareAll frame outer _

theorem viable_param :
    Viable (frame :: outer) depth param s (SenseParam (frame :: outer)) fun _ => True := by
  unfold param
  refine .freshVariable (fun _ => opens_senseParam _) fun name t hname hlocal _ => ?_
  refine .discard (.expect (fun _ => ?_) fun colon r hcolon _ => ?_)
  · exact ⟨_, _, name, completion .colon ":", completion .identifier "int", rfl, hname, rfl, rfl,
      hlocal, rfl⟩
  unfold paramType
  rw [bind_assoc]
  refine .expectNamed (fun _ => ?_) fun type q htype _ => ?_
  · exact ⟨_, _, name, colon, completion .identifier "int", rfl, hname, hcolon, rfl, hlocal, rfl⟩
  rw [pure_bind]
  refine .change (fun table h => h.declareVariable name.value .immutable) fun w _ => ?_
  exact .pure ⟨name, colon, type, rfl, hname, hcolon, htype, hlocal, rfl⟩ trivial

theorem SenseParam.opens_params (h : SenseParam chain us c) :
    ((SenseParams chain).after us).Opens :=
  ⟨[completion .closeParen ")"], c, .last h rfl⟩

theorem opens_senseParams (chain : Chain) : (SenseParams chain).Opens := by
  obtain ⟨us, c, hus⟩ := opens_senseParam chain
  exact hus.opens_params.of_after

theorem viable_paramList (m : Nat) :
    Viable (frame :: outer) depth (paramList m) s (SenseParams (frame :: outer))
      fun _ => True := by
  induction m generalizing s frame with
  | zero => exact .unexpected fun _ => opens_senseParams _
  | succ m ih =>
    unfold paramList separated
    refine .bind viable_param (fun _ us c hus => hus.opens_params) fun _ t us c _ hus _ => ?_
    refine .peekKind fun r _ => ?_
    split
    · next hkind =>
      obtain ⟨u, hhead, hu⟩ := Option.map_eq_some_iff.1 hkind
      refine .discard (.advance hhead fun q _ => ?_)
      -- a parameter is declared in the frame that was opened for it
      obtain ⟨frame', rfl⟩ : ∃ frame', c = frame' :: outer := by
        obtain ⟨_, _, _, -, -, -, -, -, rfl⟩ := hus
        exact ⟨_, rfl⟩
      exact .last ih fun vs c' hvs => SenseParams.cons hus hu hvs
    · next hkind =>
      obtain ⟨u, hhead, hu⟩ := Option.map_eq_some_iff.1 hkind
      refine .discard (.advance hhead fun q _ => ?_)
      exact .pure (SenseParams.last hus hu) trivial
    · exact .unexpected fun _ => hus.opens_params

theorem viable_params (m : Nat) :
    Viable (frame :: outer) depth (params m) s (SenseSignature (frame :: outer))
      fun _ => True := by
  unfold params enclosed
  refine .discard (.expect (fun _ => ?_) fun l t hl _ => ?_)
  · exact ⟨[completion .openParen "(", completion .closeParen ")"], _, senseSignature_nil rfl rfl⟩
  refine .peekKind fun r _ => ?_
  split
  · next hkind =>
    obtain ⟨u, hhead, hu⟩ := Option.map_eq_some_iff.1 hkind
    refine .discard (.advance hhead fun q _ => ?_)
    exact .pure (senseSignature_nil hl hu) trivial
  · exact (viable_paramList m).mono (fun us c hus => hus.signature hl) fun _ => id

/-- A statement in which nothing is violated, within the bound on nesting. -/
def SenseStatement (chain : Chain) (depth : Nat) : Language := fun us c =>
  ∃ clause n, Statement id us clause n ∧ depth + n ≤ Rules.maxNesting ∧
    clause.violations id chain = [] ∧ c = clause.declare id chain

/-- A statement or a stray semicolon. -/
def SenseItem (chain : Chain) (depth : Nat) : Language := fun us c =>
  SenseStatement chain depth us c ∨ (∃ u : Token, u.kind = .semicolon ∧ us = [u]) ∧ c = chain

/-- Statements and stray semicolons; they leave the outer frames as they are. -/
def SenseBody (chain : Chain) (depth : Nat) : Language := fun us c =>
  (∃ clauses n, Body id us clauses n ∧ depth + n ≤ Rules.maxNesting ∧
    Clause.violationsAll id chain clauses = []) ∧ ∃ frame, c = frame :: chain.tail

/-- A body between its braces, one level deeper. -/
def SenseBlock (chain : Chain) (depth : Nat) : Language := fun us c =>
  ∃ (l : Token) (vs : List Token) (close : Token), us = l :: (vs ++ [close]) ∧
    l.kind = .openCurly ∧ close.kind = .closeCurly ∧ SenseBody chain (depth + 1) vs c

theorem exists_frame_declare (clause : Clause Token) :
    ∃ frame', clause.declare id (frame :: outer) = frame' :: outer := by
  cases clause <;> exact ⟨_, rfl⟩

theorem SenseItem.exists_frame (h : SenseItem (frame :: outer) depth us c) :
    ∃ frame', c = frame' :: outer := by
  obtain ⟨clause, n, -, -, -, rfl⟩ | ⟨-, rfl⟩ := h
  · exact exists_frame_declare clause
  · exact ⟨frame, rfl⟩

theorem SenseItem.length_pos (h : SenseItem chain depth us c) : 0 < us.length := by
  obtain ⟨clause, n, hclause, -⟩ | ⟨⟨u, -, rfl⟩, -⟩ := h
  · obtain ⟨t, ts, rfl, -⟩ := hclause.exists_cons
    exact Nat.zero_lt_succ _
  · exact Nat.zero_lt_succ _

theorem senseBody_nil (hdepth : depth ≤ Rules.maxNesting) :
    SenseBody (frame :: outer) depth [] (frame :: outer) :=
  ⟨⟨[], 0, .nil, hdepth, by rw [Clause.violationsAll]⟩, frame, rfl⟩

theorem SenseItem.body (h : SenseItem (frame :: outer) depth us c)
    (h' : SenseBody c depth vs c') : SenseBody (frame :: outer) depth (us ++ vs) c' := by
  obtain ⟨frame', rfl⟩ := h.exists_frame
  obtain ⟨⟨clauses, m, hclauses, hdepth', hnil'⟩, hc'⟩ := h'
  obtain ⟨clause, n, hclause, hdepth, hnil, hc⟩ | ⟨⟨u, hu, rfl⟩, hc⟩ := h
  · refine ⟨⟨clause :: clauses, max n m, .cons hclause hclauses, by omega, ?_⟩, hc'⟩
    rw [Clause.violationsAll, hnil, ← hc, hnil', List.append_nil]
  · rw [hc] at hnil'
    exact ⟨⟨clauses, m, .semicolon hu hclauses, hdepth', hnil'⟩, hc'⟩

namespace SenseStatement

theorem binding {mutability : Mutability} {lead name eq semicolon : Token}
    (hlead : lead.isWord mutability.keyword = true) (hname : name.kind = .identifier)
    (hlocal : chain.hasLocalVariable name.value = false) (heq : eq.kind = .assignment)
    (h : Sense chain (depth + 1) .sum us c) (hsemicolon : semicolon.kind = .semicolon) :
    SenseStatement chain depth (lead :: name :: eq :: us ++ [semicolon])
      (chain.declareVariable name.value mutability) := by
  obtain ⟨-, e, n, he, hdepth, hnil⟩ := h
  refine ⟨.binding mutability name e, n + 1, .binding hlead hname heq he hsemicolon, by omega, ?_,
    rfl⟩
  rw [Clause.violations, hnil, List.append_nil, ensure_eq_nil_iff]
  simpa using hlocal

theorem returning {lead semicolon : Token} (hlead : lead.isWord "return" = true)
    (h : Sense chain (depth + 1) .sum us c) (hsemicolon : semicolon.kind = .semicolon) :
    SenseStatement chain depth (lead :: us ++ [semicolon]) chain := by
  obtain ⟨-, e, n, he, hdepth, hnil⟩ := h
  refine ⟨.returning e, n + 1, .returning hlead he hsemicolon, by omega, ?_, rfl⟩
  rw [Clause.violations]
  exact hnil

theorem bare {lead : Token} (hlead : lead.kind = .identifier) (hword : lead.value ∉ keywords)
    (h : Sense chain (depth + 1) .sum (lead :: us) c) :
    SenseStatement chain depth (lead :: us) c := by
  obtain ⟨rfl, e, n, he, hdepth, hnil⟩ := h
  refine ⟨.bare e, n + 1, .bare hlead hword he, by omega, ?_, rfl⟩
  rw [Clause.violations]
  exact hnil

theorem function {lead name colon type semicolon : Token} {ws : List Token}
    (hlead : lead.isWord "fn" = true) (hname : name.kind = .identifier)
    (hlocal : chain.hasLocalFunction name.value = false)
    (hsignature : SenseSignature (chain.declareFunction name.value).enter us c)
    (hcolon : colon.kind = .colon) (htype : type.kind = .identifier)
    (hknown : (ReturnType.ofName? type.value).isSome = true)
    (hblock : SenseBlock c depth ws c') (hsemicolon : semicolon.kind = .semicolon) :
    SenseStatement chain depth (lead :: name :: (us ++ colon :: type :: (ws ++ [semicolon])))
      (chain.declareFunction name.value) := by
  obtain ⟨ps, hps, hparams, rfl⟩ := hsignature
  obtain ⟨l, vs, close, rfl, hl, hclose, ⟨clauses, n, hclauses, hdepth, hnil⟩, -⟩ := hblock
  have hstatement := Statement.function hlead hname hps hcolon htype hl hclauses hclose hsemicolon
  refine ⟨_, _, by simpa using hstatement, by omega, ?_, rfl⟩
  rw [Clause.violations]
  simp only [id_eq, hlocal, hparams, hknown, hnil, ensure, Bool.not_false, if_true,
    List.append_nil]

end SenseStatement

theorem senseBlock_nil {l close : Token} (hl : l.kind = .openCurly)
    (hclose : close.kind = .closeCurly) (hdepth : depth < Rules.maxNesting) :
    SenseBlock (frame :: outer) depth [l, close] (frame :: outer) :=
  ⟨l, [], close, rfl, hl, hclose, senseBody_nil hdepth⟩

theorem SenseBlock.exists_frame (h : SenseBlock (frame :: outer) depth us c) :
    ∃ frame', c = frame' :: outer := by
  obtain ⟨l, vs, close, -, -, -, -, hc⟩ := h
  exact hc

/-- The parse stands before a closing brace. -/
def State.Closing (t : State) : Prop :=
  t.pending.head?.map (·.kind) = some .closeCurly

/-- Statements are viable with some fuel. -/
def ViableStmt (fuel : Nat) : Prop :=
  ∀ ⦃s : State⦄ ⦃frame : Frame⦄ ⦃outer : Chain⦄ ⦃depth : Nat⦄, s.pending.length ≤ fuel →
    ¬s.Closing → Viable (frame :: outer) depth (statement .standard fuel) s
      (SenseItem (frame :: outer) depth) fun _ => True

theorem viable_turn {loop : Parser (List Stmt)} {good : State → Prop} (h : ViableStmt fuel)
    (hs : s.pending.length ≤ fuel) (hclose : ¬s.Closing) (hdepth : depth ≤ Rules.maxNesting)
    (hloop : ∀ (r : State) (frame' : Frame), r.pending.length < s.pending.length →
      Viable (frame' :: outer) depth loop r (SenseBody (frame' :: outer) depth) good) :
    Viable (frame :: outer) depth (turn (statement .standard fuel) loop) s
      (SenseBody (frame :: outer) depth) good := by
  unfold turn
  refine .bind (h hs hclose) (fun _ us c hus => ?_) fun stmt? r us c htook hus _ => ?_
  · obtain ⟨frame', rfl⟩ := hus.exists_frame
    exact ⟨[], _, hus.body (senseBody_nil hdepth)⟩
  obtain ⟨frame', rfl⟩ := hus.exists_frame
  have hlength := htook.length
  have hpos := hus.length_pos
  have hrest := hloop r frame' (by omega)
  cases stmt? with
  | none => exact hrest.mono (fun vs c hvs => hus.body hvs) fun _ => id
  | some first => exact .last hrest fun vs c hvs => hus.body hvs

theorem viable_blockBody (h : ViableStmt fuel) (m : Nat) (hs : s.pending.length ≤ fuel)
    (hdepth : depth ≤ Rules.maxNesting) :
    Viable (frame :: outer) depth (blockBody (statement .standard fuel) m) s
      (SenseBody (frame :: outer) depth) State.Closing := by
  induction m generalizing s frame with
  | zero => exact .unexpected fun _ => ⟨[], _, senseBody_nil hdepth⟩
  | succ m ih =>
    unfold blockBody untilBrace stmtLoop
    refine .peekKind fun t ht => ?_
    have hlength := ht.length
    rw [List.length_nil] at hlength
    split
    · exact .unexpected fun _ => ⟨[], _, senseBody_nil hdepth⟩
    · next hkind => exact .pure (senseBody_nil hdepth) hkind
    · next kind hne hkind =>
      have hclose : ¬t.Closing := by
        rw [State.Closing, hkind]
        simpa using hne
      exact viable_turn h (by omega) hclose hdepth fun r frame' hr => ih (by omega)

theorem viable_block (h : ViableStmt fuel) (m : Nat) (hs : s.pending.length ≤ fuel + 1) :
    Viable (frame :: outer) depth (block (some Rules.maxNesting) m (statement .standard fuel)) s
      (SenseBlock (frame :: outer) depth) fun _ => True := by
  unfold block blockOf
  refine .discard (.expect (fun hlt => ?_) fun l t hl ht => ?_)
  · exact ⟨[completion .openCurly "\x7b", completion .closeCurly "\x7d"], _,
      senseBlock_nil rfl rfl hlt⟩
  have hlength := ht.length
  rw [List.length_singleton] at hlength
  have hbody : Viable (frame :: outer) depth (nested (some Rules.maxNesting)
      (blockBody (statement .standard fuel) m)) t (SenseBody (frame :: outer) (depth + 1))
      State.Closing := by
    refine .nested (fun hlt => viable_blockBody h m ?_ hlt) fun _ => id
    rw [State.pending_descend]
    omega
  have hclose {vs : List Token} {c : Chain} (hvs : SenseBody (frame :: outer) (depth + 1) vs c) :
      (((SenseBlock (frame :: outer) depth).after [l]).after vs).Opens :=
    ⟨[completion .closeCurly "\x7d"], c, l, vs, _, rfl, hl, rfl, hvs⟩
  refine .bind hbody (fun _ vs c hvs => hclose hvs) fun _ r vs c _ hvs _ => ?_
  refine .discard (.expect (fun _ => hclose hvs) fun close q hclose _ => ?_)
  exact .pure ⟨l, vs, close, rfl, hl, hclose, hvs⟩ trivial

/-- The value of a statement. -/
theorem viable_value (hs : s.pending.length ≤ fuel) :
    Viable chain depth (expression .standard fuel .lowest) s (Sense chain (depth + 1) .sum)
      fun _ => True :=
  (viableExpr fuel hs).mono (fun _ _ => id) fun _ _ => trivial

theorem viable_binding {lead : Token} (mutability : Mutability) (hs : s.pending.length ≤ fuel)
    (hlead : lead.isWord mutability.keyword = true) (hhead : s.pending.head? = some lead) :
    Viable (frame :: outer) depth (binding (expression .standard fuel .lowest)) s
      (SenseStatement (frame :: outer) depth) fun _ => True := by
  have hequals := kind_completion .assignment "="
  have hend := kind_completion .semicolon ";"
  have hvalue (hlt : depth < Rules.maxNesting) : (Sense (frame :: outer) (depth + 1) .sum).Opens :=
    opens_sense hlt _
  unfold binding
  refine .advance hhead fun t ht => ?_
  rw [mutability_of_keyword hlead]
  refine .freshVariable (fun hlt => ?_) fun name r hname hlocal hr => ?_
  · obtain ⟨x, hx⟩ := Chain.exists_not_hasLocalVariable (frame :: outer)
    obtain ⟨us, c, hus⟩ := hvalue hlt
    exact ⟨_, _, .binding hlead (kind_completion .identifier x) hx hequals hus hend⟩
  refine .discard (.expect (fun hlt => ?_) fun eq q heq hq => ?_)
  · obtain ⟨us, c, hus⟩ := hvalue hlt
    exact ⟨_, _, .binding hlead hname hlocal hequals hus hend⟩
  have hlength := ((ht.trans hr).trans hq).length
  refine .bind (viable_value (by omega)) (fun _ us c hus => ?_) fun e w us c _ hus _ => ?_
  · exact ⟨_, _, .binding hlead hname hlocal heq hus hend⟩
  obtain rfl := hus.1
  refine .discard (.expect (fun _ => ?_) fun semicolon x hsemicolon _ => ?_)
  · exact ⟨_, _, .binding hlead hname hlocal heq hus hend⟩
  refine .change (fun table h => h.declareVariable name.value mutability) fun y _ => ?_
  exact .pure (.binding hlead hname hlocal heq hus hsemicolon) trivial

theorem viable_returning {lead : Token} (hs : s.pending.length ≤ fuel)
    (hlead : lead.isWord "return" = true) (hhead : s.pending.head? = some lead) :
    Viable (frame :: outer) depth (returning (expression .standard fuel .lowest)) s
      (SenseStatement (frame :: outer) depth) fun _ => True := by
  have hend := kind_completion .semicolon ";"
  unfold returning
  refine .discard (.advance hhead fun t ht => ?_)
  have hlength := ht.length
  refine .bind (viable_value (by omega)) (fun _ us c hus => ?_) fun e w us c _ hus _ => ?_
  · exact ⟨_, _, .returning hlead hus hend⟩
  obtain rfl := hus.1
  refine .discard (.expect (fun _ => ?_) fun semicolon x hsemicolon _ => ?_)
  · exact ⟨_, _, .returning hlead hus hend⟩
  exact .pure (.returning hlead hus hsemicolon) trivial

theorem viable_function {lead : Token} (h : ViableStmt fuel) (hs : s.pending.length ≤ fuel + 1)
    (hlead : lead.isWord "fn" = true) (hhead : s.pending.head? = some lead) (m k : Nat) :
    Viable (frame :: outer) depth
      (function m (block (some Rules.maxNesting) k (statement .standard fuel))) s
      (SenseStatement (frame :: outer) depth) fun _ => True := by
  -- what a function is completed with, from its parameters to its end
  have hopen := kind_completion .openParen "("
  have hclose := kind_completion .closeParen ")"
  have hcolon := kind_completion .colon ":"
  have htype := kind_completion .identifier "int"
  have hknown : (ReturnType.ofName? (completion .identifier "int").value).isSome = true := rfl
  have hblock {f : Frame} {o : Chain} (hlt : depth < Rules.maxNesting) :
      SenseBlock (f :: o) depth [completion .openCurly "\x7b", completion .closeCurly "\x7d"]
        (f :: o) :=
    senseBlock_nil rfl rfl hlt
  have hend := kind_completion .semicolon ";"
  unfold function functionOf
  refine .discard (.advance hhead fun t ht => ?_)
  refine .freshFunction (fun hlt => ?_) fun name t' hname hlocal ht' => ?_
  · obtain ⟨x, hx⟩ := Chain.exists_not_hasLocalFunction (frame :: outer)
    exact ⟨_, _, .function hlead (kind_completion .identifier x) hx
      (senseSignature_nil hopen hclose) hcolon htype hknown (hblock hlt) hend⟩
  refine .change (fun table h => h.declareFunction name.value) fun r hr => ?_
  refine .change (fun table h => h.enter) fun r' hr' => ?_
  refine .bind (viable_params m) (fun hlt us c hus => ?_) fun ps q us c hq hus _ => ?_
  · obtain ⟨frame', rfl⟩ := hus.exists_frame
    exact ⟨_, _, .function hlead hname hlocal hus hcolon htype hknown (hblock hlt) hend⟩
  obtain ⟨frame', rfl⟩ := hus.exists_frame
  refine .discard (.expect (fun hlt => ?_) fun colon q' hcolon' hq' => ?_)
  · exact ⟨_, _, .function hlead hname hlocal hus hcolon htype hknown (hblock hlt) hend⟩
  refine .returnType (fun hlt => ?_) fun _ type w htype' hknown' hw => ?_
  · exact ⟨_, _, .function hlead hname hlocal hus hcolon' htype hknown (hblock hlt) hend⟩
  have hlength := ((((((ht.trans ht').trans hr).trans hr').trans hq).trans hq').trans hw).length
  simp only [List.length_append, List.length_singleton, List.length_nil] at hlength
  refine .bind (viable_block h k (by omega)) (fun _ ws c hws => ?_) fun body x ws c _ hws _ => ?_
  · exact ⟨_, _, .function hlead hname hlocal hus hcolon' htype' hknown' hws hend⟩
  obtain ⟨frame'', rfl⟩ := hws.exists_frame
  refine .discard (.expect (fun _ => ?_) fun semicolon y hsemicolon _ => ?_)
  · exact ⟨_, _, .function hlead hname hlocal hus hcolon' htype' hknown' hws hend⟩
  refine .change (fun table h => h.exit) fun z _ => ?_
  exact .pure (.function hlead hname hlocal hus hcolon' htype' hknown' hws hsemicolon) trivial

/-- A keyword's rule reads a statement that begins with the keyword. -/
theorem viable_keyword {lead : Token} {rule : StmtRule} (h : ViableStmt fuel)
    (hs : s.pending.length ≤ fuel + 1) (hkind : lead.kind = .identifier)
    (hhead : s.pending.head? = some lead) (hrule : Rules.standard.stmt? lead.value = some rule) :
    Viable (frame :: outer) depth (rule.parse .standard (fuel + 1) (statement .standard fuel)) s
      (SenseStatement (frame :: outer) depth) fun _ => True := by
  have hlead {word : String} (hword : lead.value = word) : lead.isWord word = true := by
    simp [Token.isWord, hkind, hword]
  rw [stmt?_standard] at hrule
  split at hrule
  · next hword =>
    obtain rfl := Option.some.inj hrule
    exact viable_function h hs (hlead hword) hhead _ _
  split at hrule
  · next hword =>
    obtain rfl := Option.some.inj hrule
    obtain hword | hword := hword
    · exact viable_binding .mutable hs (hlead hword) hhead
    · exact viable_binding .immutable hs (hlead hword) hhead
  split at hrule
  · next hword =>
    obtain rfl := Option.some.inj hrule
    exact viable_returning hs (hlead hword) hhead
  · cases hrule

theorem opens_senseItem (chain : Chain) (depth : Nat) : (SenseItem chain depth).Opens :=
  ⟨[completion .semicolon ";"], chain, .inr ⟨⟨_, rfl, rfl⟩, rfl⟩⟩

theorem viableStmt (fuel : Nat) : ViableStmt fuel := by
  induction fuel with
  | zero =>
    intro s frame outer depth hs _
    have hnil : s.pending = [] := List.eq_nil_of_length_eq_zero (Nat.le_zero.1 hs)
    exact .failEnd hnil fun _ => opens_senseItem _ _
  | succ fuel ih =>
    intro s frame outer depth hs hclose
    unfold statement statementOf
    refine .peek fun t ht => ?_
    have hlength := ht.length
    rw [List.length_nil] at hlength
    split
    · next hhead => exact .failEnd (List.head?_eq_none_iff.1 hhead) fun _ => opens_senseItem _ _
    · next lead hhead =>
      split
      · next hkind =>
        rw [State.Closing, ht.pending, List.nil_append, hhead, Option.map_some, hkind] at hclose
        exact absurd rfl hclose
      · next hkind =>
        refine .discard (.advance hhead fun r hr => ?_)
        exact .pure (.inr ⟨⟨lead, hkind, rfl⟩, rfl⟩) trivial
      · next hkind =>
        split
        · next rule hrule =>
          exact .last (viable_keyword ih (by omega) hkind hhead hrule) fun us c hus => .inl hus
        · next hrule =>
          have hvalue : Viable (frame :: outer) depth (expression .standard (fuel + 1) .lowest) t
              (Sense (frame :: outer) (depth + 1) .sum) fun _ => True := viable_value (by omega)
          refine .last (hvalue.headed hhead fun us c hus => hus.length_pos) ?_
          rintro us c ⟨vs, rfl, hus⟩
          exact .inl (.bare hkind (stmt?_eq_none_iff.1 hrule) hus)
      · exact .unexpectedToken

theorem viable_topLevel (m : Nat) (hm : s.pending.length ≤ m) (hs : s.pending.length ≤ fuel)
    (hdepth : depth ≤ Rules.maxNesting) :
    Viable (frame :: outer) depth (topLevel (statement .standard fuel) m) s
      (SenseBody (frame :: outer) depth) fun t => t.pending = [] := by
  induction m generalizing s frame with
  | zero =>
    have hnil : s.pending = [] := List.eq_nil_of_length_eq_zero (Nat.le_zero.1 hm)
    exact .pure (senseBody_nil hdepth) hnil
  | succ m ih =>
    unfold topLevel untilEnd stmtLoop
    refine .peekKind fun t ht => ?_
    have hlength := ht.length
    rw [List.length_nil] at hlength
    split
    · next hkind => exact .pure (senseBody_nil hdepth) (by simpa using hkind)
    · exact .failHere (by simp)
    · next kind hne hkind =>
      have hclose : ¬t.Closing := by
        rw [State.Closing, hkind]
        simpa using hne
      exact viable_turn (viableStmt fuel) (by omega) hclose hdepth fun r frame' hr =>
        ih (by omega) (by omega)

/-- A program in which nothing is violated, within the bound on nesting. -/
def SenseProgram : Language := fun us _ =>
  ∃ clauses n, Body id us clauses n ∧ n ≤ Rules.maxNesting ∧
    Clause.violationsAll id [{ functions := ["echo"] }] clauses = []

theorem SenseBody.program (h : SenseBody [{ functions := ["echo"] }] 0 us c) :
    SenseProgram us c' := by
  obtain ⟨⟨clauses, n, hclauses, hn, hnil⟩, -⟩ := h
  exact ⟨clauses, n, hclauses, by omega, hnil⟩

theorem viable_program (tokens : List Token) (file : String) :
    Viable [] 0 (program .standard tokens.length) { rest := tokens, file } SenseProgram
      fun t => t.pending = [] := by
  unfold program programOf
  refine .change (fun table h => h.enter) fun s hs => ?_
  change Viable _ 0 ((do change (.function "echo"); pure ()) >>= _) s _ _
  rw [bind_assoc]
  refine .change (fun table h => h.declareFunction "echo") fun t ht => ?_
  rw [pure_bind]
  have hlength : t.pending.length ≤ tokens.length := by
    have htook := (hs.trans ht).length
    rw [List.append_nil, List.length_nil] at htook
    have hfilter : (State.pending { rest := tokens, file }).length ≤ tokens.length :=
      List.length_filter_le _ _
    omega
  refine .bind (viable_topLevel tokens.length hlength hlength (Nat.zero_le _))
    (fun _ us c hus => ⟨[], c, ?_⟩) fun body r us c hr hus hnil => ?_
  · rw [Language.after, List.append_nil]
    exact hus.program
  obtain ⟨frame', rfl⟩ := hus.2
  refine .change (fun table h => h.exit) fun q hq => ?_
  intro hfollows hdepth
  refine ends_bind.2 (ends_modify.2 (ends_pure.2 ⟨⟨[], [], ⟨rfl, rfl⟩, hfollows, ?_⟩, ?_⟩))
  · rw [Language.after, List.append_nil]
    exact hus.program
  · have hpending : r.pending = q.pending := by simpa using hq.pending
    rw [← hnil, hpending]
    rfl

/-- The tokens of an accepted program derive a body within the bound on nesting. -/
theorem yields_program (tokens : List Token) (file : String) :
    Yields (program .standard tokens.length) { rest := tokens, file } fun _ _ =>
      ∃ cs n, Body id (tokens.filter (·.kind ≠ .newline)) cs n ∧ n ≤ Rules.maxNesting := by
  refine Ends.mono (viable_program tokens file .nil rfl) ?_ fun _ _ _ => trivial
  rintro _ t ⟨⟨us, c, htook, -, clauses, n, hclauses, hn, -⟩, hnil⟩
  have hus : tokens.filter (·.kind ≠ .newline) = us := by
    have hpending := htook.pending
    rwa [hnil, List.append_nil] at hpending
  exact ⟨clauses, n, hus ▸ hclauses, hn⟩

end Parse

end Scopewise
