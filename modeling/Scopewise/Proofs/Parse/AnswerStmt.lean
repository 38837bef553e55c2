import Scopewise.Proofs.Parse.AnswerExpr

namespace Scopewise.Parse

open Grammar Scope

variable {α : Type} {token : α → Token}

theorem State.At.change {s : State} {ts : List Token} {table next : Table} {depth : Nat}
    {c : Scope.Change} (h : s.At ts table depth) (hnext : table.after? c = some next) :
    Ends (Parse.change c) s (fun _ r => r.At ts next depth) fun _ _ => False := by
  rw [ends_change, h.scopes, hnext]
  exact ⟨h.pending, rfl, h.depth⟩

/-- The keyword table by cases. -/
theorem stmt?_standard (word : String) :
    Rules.standard.stmt? word =
      if word = "fn" then some .function
      else if word = "let" ∨ word = "const" then some .binding
      else if word = "return" then some .returning
      else none := by
  unfold Rules.stmt?
  simp only [Rules.standard, Rules.addStandard, Rules.setKeyword, Rules.setOperand, Rules.setPower,
    Rules.empty, List.lookup_cons, List.lookup_nil]
  by_cases hfn : word = "fn"
  · subst hfn; rfl
  by_cases hlet : word = "let"
  · subst hlet; rfl
  by_cases hconst : word = "const"
  · subst hconst; rfl
  by_cases hreturn : word = "return"
  · subst hreturn; rfl
  simp [beq_false_of_ne, hfn, hlet, hconst, hreturn]

theorem stmt?_eq_none_iff {word : String} : Rules.standard.stmt? word = none ↔ word ∉ keywords := by
  rw [stmt?_standard]
  by_cases hfn : word = "fn"
  · simp [keywords, hfn]
  by_cases hbinding : word = "let" ∨ word = "const"
  · rcases hbinding with rfl | rfl <;> simp [keywords]
  rw [not_or] at hbinding
  by_cases hreturn : word = "return"
  · simp [keywords, hreturn]
  simp [keywords, hfn, hbinding, hreturn]

theorem answers_freshVariable {s : State} {ts : List Token} {table : Table} {chain : Chain}
    {depth : Nat} {t : α} {expected : String} (h : s.At (token t :: ts) table depth)
    (hfollows : Follows table.scopes chain) (ht : (token t).kind = .identifier) :
    Answers token (ensure token (!chain.hasLocalVariable (token t).value) t .variableRedeclared)
      (freshVariable expected) s
      fun name r => name = (token t).value ∧ r.At ts table depth := by
  unfold freshVariable
  apply Answers.after (h.expectNamed ht)
  rintro _ u ⟨rfl, hu⟩
  refine ends_bind.2 (ends_get.2 ?_)
  rw [hu.scopes, hfollows.hasLocalVariable]
  cases chain.hasLocalVariable (token t).value with
  | true => exact ends_failAt.2 rfl
  | false => exact Answers.pure ⟨rfl, hu⟩

theorem answers_freshFunction {s : State} {ts : List Token} {table : Table} {chain : Chain}
    {depth : Nat} {t : α} (h : s.At (token t :: ts) table depth)
    (hfollows : Follows table.scopes chain) (ht : (token t).kind = .identifier) :
    Answers token (ensure token (!chain.hasLocalFunction (token t).value) t .functionRedeclared)
      freshFunction s
      fun name r => name = (token t).value ∧ r.At ts table depth := by
  unfold freshFunction
  apply Answers.after (h.expectNamed ht)
  rintro _ u ⟨rfl, hu⟩
  refine ends_bind.2 (ends_get.2 ?_)
  rw [hu.scopes, hfollows.hasLocalFunction]
  cases chain.hasLocalFunction (token t).value with
  | true => exact ends_failAt.2 rfl
  | false => exact Answers.pure ⟨rfl, hu⟩

theorem answers_returnType {s : State} {ts : List Token} {table : Table} {depth : Nat} {t : α}
    (h : s.At (token t :: ts) table depth) (ht : (token t).kind = .identifier) :
    Answers token
      (ensure token (ReturnType.ofName? (token t).value).isSome t .unknownReturnType)
      returnType s
      fun type r => ReturnType.ofName? (token t).value = some type ∧ r.At ts table depth := by
  unfold returnType
  apply Answers.after (h.expectNamed ht)
  rintro _ u ⟨rfl, hu⟩
  cases htype : ReturnType.ofName? (token t).value with
  | none => exact ends_failAt.2 rfl
  | some type => exact Answers.pure ⟨rfl, hu⟩

theorem answers_param {s : State} {ts : List Token} {table : Table} {frame : Frame} {outer : Chain}
    {depth : Nat} {name colon type : α}
    (h : s.At (token name :: token colon :: token type :: ts) table depth)
    (hfollows : Follows table.scopes (frame :: outer)) (hname : (token name).kind = .identifier)
    (hcolon : (token colon).kind = .colon) (htype : (token type).kind = .identifier) :
    Answers token
      (ensure token (!Chain.hasLocalVariable (frame :: outer) (token name).value) name
        .variableRedeclared)
      Parse.param s
      fun p r => p = Clause.param token (name, type) ∧ ∃ table',
        r.At ts table' depth ∧ Follows table'.scopes
          (Chain.declareVariable (frame :: outer) (token name).value .immutable) := by
  obtain ⟨table', hafter, hfollows'⟩ := hfollows.declareVariable (token name).value .immutable
  unfold Parse.param
  apply Answers.finish (answers_freshVariable h hfollows hname)
  rintro _ u ⟨rfl, hu⟩
  apply Answers.after_discard (hu.expect hcolon)
  rintro _ u ⟨-, hu⟩
  unfold paramType
  rw [bind_assoc]
  apply Answers.after (hu.expectNamed htype)
  rintro _ u ⟨rfl, hu⟩
  rw [pure_bind]
  apply Answers.after (hu.change hafter)
  intro _ u hu
  exact Answers.pure ⟨rfl, table', hu, hfollows'⟩

/-- Parameters are read into the frame that was opened for them. -/
def ReadsParams (token : α → Token) (us : List α) (ps : List (α × α))
    (p : Nat → Parser (List Param)) : Prop :=
  ∀ ⦃s : State⦄ ⦃rest : List Token⦄ ⦃table : Table⦄ ⦃frame : Frame⦄ ⦃outer : Chain⦄
    ⦃depth fuel : Nat⦄, Ready token s us rest table (frame :: outer) depth fuel →
    Answers token (Clause.paramViolations token (frame :: outer) ps) (p fuel) s
      fun params r => params = ps.map (Clause.param token) ∧ ∃ table' frame',
        r.At rest table' depth ∧ Follows table'.scopes (frame' :: outer) ∧
        Param.declareAll (frame :: outer) (ps.map (Clause.param token)) = frame' :: outer

theorem readsParams_paramList {us : List α} {ps : List (α × α)} (h : Parameters token us ps) :
    ReadsParams token us ps paramList := by
  induction h with
  | @last name colon type r hname hcolon htype hr =>
    intro s rest table frame outer depth fuel hready
    have henough := hready.enough
    simp only [List.length_cons] at henough
    obtain ⟨fuel, rfl⟩ : ∃ k, fuel = k + 1 := ⟨fuel - 1, by omega⟩
    have hhere : s.At (token name :: token colon :: token type :: token r :: rest) table depth :=
      hready.here
    unfold paramList separated Clause.paramViolations
    apply Answers.bind (answers_param hhere hready.follows hname hcolon htype)
    rintro _ u ⟨rfl, table', hu, hfollows'⟩
    apply Answers.after hu.peekKind
    rintro _ u ⟨rfl, hu⟩
    simp only [List.head?_cons, Option.map_some, hr]
    apply Answers.after_discard hu.advance
    rintro _ u ⟨-, hu⟩
    exact Answers.pure ⟨rfl, table', _, hu, hfollows', rfl⟩
  | @cons name colon type c us ps hname hcolon htype hc _ ih =>
    intro s rest table frame outer depth fuel hready
    have henough := hready.enough
    simp only [List.length_cons] at henough
    obtain ⟨fuel, rfl⟩ : ∃ k, fuel = k + 1 := ⟨fuel - 1, by omega⟩
    have hhere : s.At (token name :: token colon :: token type :: token c ::
        (us.map token ++ rest)) table depth := hready.here
    unfold paramList separated Clause.paramViolations
    apply Answers.bind (answers_param hhere hready.follows hname hcolon htype)
    rintro _ u ⟨rfl, table', hu, hfollows'⟩
    apply Answers.after hu.peekKind
    rintro _ u ⟨rfl, hu⟩
    simp only [List.head?_cons, Option.map_some, hc]
    apply Answers.after_discard hu.advance
    rintro _ u ⟨-, hu⟩
    apply Answers.finish (ih ⟨hu, hfollows', by omega⟩)
    rintro _ u ⟨rfl, table'', frame'', hu, hfollows'', hdeclare⟩
    exact Answers.pure ⟨rfl, table'', frame'', hu, hfollows'', hdeclare⟩

theorem readsParams_params {us : List α} {ps : List (α × α)} (h : Signature token us ps) :
    ReadsParams token us ps params := by
  intro s rest table frame outer depth fuel hready
  cases h with
  | @nil l r hl hr =>
    have hhere : s.At (token l :: token r :: rest) table depth := hready.here
    unfold params enclosed Clause.paramViolations
    apply Answers.after_discard (hhere.expect hl)
    rintro _ u ⟨-, hu⟩
    apply Answers.after hu.peekKind
    rintro _ u ⟨rfl, hu⟩
    simp only [List.head?_cons, Option.map_some, hr, if_true]
    apply Answers.after_discard hu.advance
    rintro _ u ⟨-, hu⟩
    exact Answers.pure ⟨rfl, table, frame, hu, hready.follows, rfl⟩
  | @params l us ps hl hps =>
    have henough := hready.enough
    rw [List.length_cons] at henough
    have hhere : s.At (token l :: (us.map token ++ rest)) table depth := hready.here
    unfold params enclosed
    apply Answers.after_discard (hhere.expect hl)
    rintro _ u ⟨-, hu⟩
    apply Answers.after hu.peekKind
    rintro _ u ⟨rfl, hu⟩
    have hhead : ((us.map token ++ rest).head?.map (·.kind)) ≠ some .closeParen := by
      obtain ⟨t, ts, rfl, ht⟩ := hps.exists_cons
      simp [ht]
    rw [if_neg hhead]
    exact readsParams_paramList hps ⟨hu, hready.follows, by omega⟩

variable {us vs : List α} {c : Clause α} {cs : List (Clause α)} {e : Phrase α} {n m : Nat}

/-- The clause is read as a statement, and what it declares is in force behind it. -/
def ReadsStatement (token : α → Token) (us : List α) (c : Clause α) (n : Nat) : Prop :=
  ∀ ⦃s : State⦄ ⦃rest : List Token⦄ ⦃table : Table⦄ ⦃frame : Frame⦄ ⦃outer : Chain⦄
    ⦃depth fuel : Nat⦄, Ready token s us rest table (frame :: outer) depth fuel →
    Stops .lowest rest → depth + n ≤ Rules.maxNesting →
    Answers token (c.violations token (frame :: outer)) (statement .standard fuel) s
      fun stmt? r => stmt? = c.tree? token ∧ stmt?.isSome ∧ ∃ table' frame',
        r.At rest table' depth ∧ Follows table'.scopes (frame' :: outer) ∧
        c.declare token (frame :: outer) = frame' :: outer

/-- `loop` takes statements one after the other until it stands before `rest`. -/
structure Repeats (stmt : Parser (Option Stmt)) (loop : Nat → Parser (List Stmt))
    (rest : List Token) : Prop where
  stop {s : State} {table : Table} {depth m : Nat} : s.At rest table depth → rest.length ≤ m →
    Ends (loop m) s (fun body r => body = [] ∧ r.At rest table depth) fun _ _ => False
  turn {s : State} {t : Token} {ts : List Token} {table : Table} {depth m : Nat}
    {good : List Stmt → State → Prop} {bad : Failure → State → Prop} :
    s.At (t :: ts) table depth → t.kind ≠ .closeCurly →
    (∀ r : State, r.At (t :: ts) table depth → Ends (turn stmt (loop m)) r good bad) →
    Ends (loop (m + 1)) s good bad

/-- A body is read by any such loop. -/
def ReadsBody (token : α → Token) (us : List α) (cs : List (Clause α)) (n : Nat) : Prop :=
  ∀ ⦃s : State⦄ ⦃rest : List Token⦄ ⦃table : Table⦄ ⦃frame : Frame⦄ ⦃outer : Chain⦄
    ⦃depth fuel m : Nat⦄ ⦃loop : Nat → Parser (List Stmt)⦄,
    Ready token s us rest table (frame :: outer) depth fuel →
    Repeats (statement .standard fuel) loop rest → Stops .lowest rest →
    us.length + rest.length ≤ m → depth + n ≤ Rules.maxNesting →
    Answers token (Clause.violationsAll token (frame :: outer) cs) (loop m) s
      fun trees r => Clause.trees? token cs = some trees ∧ ∃ table' frame',
        r.At rest table' depth ∧ Follows table'.scopes (frame' :: outer)

theorem readsBody_nil : ReadsBody token [] [] 0 := by
  intro s rest table frame outer depth fuel m loop hready hloop _ hm _
  have hhere : s.At rest table depth := hready.here
  refine Ends.mono (hloop.stop hhere (by simpa using hm)) ?_ fun _ _ => False.elim
  rintro _ r ⟨rfl, hr⟩
  exact ⟨rfl, rfl, table, frame, hr, hready.follows⟩

theorem ReadsBody.semicolon {t : α} (ht : (token t).kind = .semicolon)
    (h : ReadsBody token us cs n) : ReadsBody token (t :: us) cs n := by
  intro s rest table frame outer depth fuel m loop hready hloop hstops hm hdepth
  have henough := hready.enough
  rw [List.length_cons] at henough hm
  obtain ⟨m, rfl⟩ : ∃ k, m = k + 1 := ⟨m - 1, by omega⟩
  obtain ⟨k, rfl⟩ : ∃ k, fuel = k + 1 := ⟨fuel - 1, by omega⟩
  have hhere : s.At (token t :: (us.map token ++ rest)) table depth := hready.here
  refine hloop.turn hhere (by rw [ht]; decide) fun r hr => ?_
  have hstmt : Ends (statement .standard (k + 1)) r
      (fun stmt? q => stmt? = none ∧ q.At (us.map token ++ rest) table depth)
      fun _ _ => False := by
    unfold statement statementOf
    refine ends_bind.2 (Ends.mono hr.peek ?_ fun _ _ => id)
    rintro _ q ⟨rfl, hq⟩
    simp only [List.head?_cons, ht]
    refine ends_bind.2 (ends_discard.2 (Ends.mono hq.advance ?_ fun _ _ => id))
    rintro _ q ⟨-, hq⟩
    exact ends_pure.2 ⟨rfl, hq⟩
  apply Answers.after hstmt
  rintro _ q ⟨rfl, hq⟩
  exact h ⟨hq, hready.follows, by omega⟩ hloop hstops (by omega) hdepth

/-- Where a body begins, an expression before it ends. -/
theorem stops_body {rest : List Token} (h : Body token us cs n) (hrest : Stops .lowest rest) :
    Stops .lowest (us.map token ++ rest) := by
  have hhead := h.head_kind
  cases us with
  | nil => exact hrest
  | cons t us =>
    have ht : (token t).kind = .identifier ∨ (token t).kind = .semicolon := hhead t rfl
    obtain ht | ht := ht
    · exact Stops.of_kind ht (by decide) rfl
    · exact Stops.of_kind ht (by decide) rfl

theorem ReadsStatement.body (hc : ReadsStatement token us c n) (hcs : ReadsBody token vs cs m)
    (hhead : ∃ t ts, us = t :: ts ∧ (token t).kind = .identifier) (hvs : Body token vs cs m) :
    ReadsBody token (us ++ vs) (c :: cs) (max n m) := by
  intro s rest table frame outer depth fuel k loop hready hloop hstops hk hdepth
  obtain ⟨t, ts, rfl, ht⟩ := hhead
  have henough := hready.enough
  simp only [List.length_append, List.length_cons] at henough hk
  obtain ⟨k, rfl⟩ : ∃ j, k = j + 1 := ⟨k - 1, by omega⟩
  have hhere : s.At (token t :: (ts.map token ++ (vs.map token ++ rest))) table depth := by
    simpa using hready.here
  have hclose : (token t).kind ≠ .closeCurly := by rw [ht]; decide
  refine hloop.turn hhere hclose fun r hr => ?_
  have hready' : Ready token r (t :: ts) (vs.map token ++ rest) table (frame :: outer) depth
      fuel := by
    refine ⟨hr, hready.follows, ?_⟩
    simp only [List.length_append, List.length_cons, List.length_map]
    omega
  rw [Clause.violationsAll]
  apply Answers.bind (hc hready' (stops_body hvs hstops) (by omega))
  rintro stmt? q ⟨htree, hsome, table', frame', hq, hfollows', hdeclare⟩
  obtain ⟨tree, rfl⟩ := Option.isSome_iff_exists.1 hsome
  rw [hdeclare]
  apply Answers.finish (hcs ⟨hq, hfollows', by omega⟩ hloop hstops (by omega) (by omega))
  rintro trees p ⟨htrees, table'', frame'', hp, hfollows''⟩
  exact Answers.pure ⟨by simp [Clause.trees?, ← htree, htrees], table'', frame'', hp, hfollows''⟩

/-- A statement that begins with a keyword is read by the keyword's rule. -/
theorem answers_keyword {s : State} {t : Token} {ts : List Token} {table : Table} {depth k : Nat}
    {found : List (Violation α)} {good : Option Stmt → State → Prop} {word : String}
    (rule : StmtRule) (h : s.At (t :: ts) table depth) (ht : t.isWord word = true)
    (hrule : Rules.standard.stmt? word = some rule)
    (hanswers : ∀ r : State, r.At (t :: ts) table depth →
      Answers token found (rule.parse .standard (k + 1) (statement .standard k)) r
        fun tree q => good (some tree) q) :
    Answers token found (statement .standard (k + 1)) s good := by
  obtain ⟨hkind, rfl⟩ : t.kind = .identifier ∧ t.value = word := by simpa [Token.isWord] using ht
  unfold statement statementOf
  apply Answers.after h.peek
  rintro _ r ⟨rfl, hr⟩
  simp only [List.head?_cons, hkind, hrule]
  apply Answers.finish (hanswers r hr)
  intro tree q hq
  exact Answers.pure hq

theorem keyword_rule (mutability : Mutability) :
    Rules.standard.stmt? mutability.keyword = some .binding := by
  cases mutability <;> rfl

theorem mutability_of_keyword {mutability : Mutability} {t : Token}
    (h : t.isWord mutability.keyword = true) :
    (if t.isWord "let" = true then Mutability.mutable else .immutable) = mutability := by
  obtain ⟨hkind, hvalue⟩ : t.kind = .identifier ∧ t.value = mutability.keyword := by
    simpa [Token.isWord] using h
  cases mutability <;> simp [Token.isWord, hkind, hvalue, Mutability.keyword]

/-- The value of a statement goes up to the semicolon. -/
theorem answers_value {β : Type} {s : State} {rest : List Token} {table : Table} {chain : Chain}
    {depth fuel : Nat} {semicolon : α} {next : Expr → Parser β} {good : β → State → Prop}
    (he : Derives token .sum us e n) (hsemicolon : (token semicolon).kind = .semicolon)
    (hready : Ready token s us (token semicolon :: rest) table chain depth fuel)
    (hdepth : depth + (n + 1) ≤ Rules.maxNesting)
    (hnext : ∀ tree t, e.tree? token = some tree → t.At rest table depth →
      Answers token [] (next tree) t good) :
    Answers token (e.violations token chain)
      (do let value ← expression .standard fuel .lowest; discard (expect .semicolon); next value)
      s good := by
  have hstops : Stops .lowest (token semicolon :: rest) :=
    Stops.of_kind hsemicolon (by decide) rfl
  apply Answers.finish (he.reads hready hstops hdepth)
  rintro tree t ⟨htree, ht⟩
  apply Answers.after_discard (ht.expect hsemicolon)
  rintro _ t ⟨-, ht⟩
  exact hnext tree t htree ht

theorem readsStatement_binding {mutability : Mutability} {lead name eq semicolon : α}
    (hlead : (token lead).isWord mutability.keyword = true)
    (hname : (token name).kind = .identifier) (heq : (token eq).kind = .assignment)
    (he : Derives token .sum us e n) (hsemicolon : (token semicolon).kind = .semicolon) :
    ReadsStatement token (lead :: name :: eq :: us ++ [semicolon]) (.binding mutability name e)
      (n + 1) := by
  intro s rest table frame outer depth fuel hready hstops hdepth
  have henough := hready.enough
  simp only [List.length_append, List.length_cons, List.length_nil] at henough
  obtain ⟨k, rfl⟩ : ∃ k, fuel = k + 1 := ⟨fuel - 1, by omega⟩
  have hhere : s.At (token lead :: token name :: token eq ::
      (us.map token ++ (token semicolon :: rest))) table depth := by
    simpa using hready.here
  obtain ⟨table', hafter, hfollows'⟩ :=
    hready.follows.declareVariable (token name).value mutability
  refine answers_keyword .binding hhere hlead (keyword_rule mutability) fun r hr => ?_
  change Answers token _ (Parse.binding _) r _
  unfold Parse.binding
  apply Answers.after hr.advance
  rintro _ r ⟨rfl, hr⟩
  rw [mutability_of_keyword hlead, Clause.violations]
  apply Answers.bind (answers_freshVariable hr hready.follows hname)
  rintro _ r ⟨rfl, hr⟩
  apply Answers.after_discard (hr.expect heq)
  rintro _ r ⟨-, hr⟩
  have hready' : Ready token r us (token semicolon :: rest) table (frame :: outer) depth (k + 1) :=
    ⟨hr, hready.follows, by simp only [List.length_cons]; omega⟩
  -- the value is read in the chain without the name, which is in force only behind the statement
  apply answers_value he hsemicolon hready' hdepth
  intro tree r htree hr
  apply Answers.after (hr.change hafter)
  intro _ r hr
  exact Answers.pure ⟨by simp [Clause.tree?, htree], rfl, table', _, hr, hfollows', rfl⟩

theorem readsStatement_returning {lead semicolon : α}
    (hlead : (token lead).isWord "return" = true) (he : Derives token .sum us e n)
    (hsemicolon : (token semicolon).kind = .semicolon) :
    ReadsStatement token (lead :: us ++ [semicolon]) (.returning e) (n + 1) := by
  intro s rest table frame outer depth fuel hready hstops hdepth
  have henough := hready.enough
  simp only [List.length_append, List.length_cons, List.length_nil] at henough
  obtain ⟨k, rfl⟩ : ∃ k, fuel = k + 1 := ⟨fuel - 1, by omega⟩
  have hhere : s.At (token lead :: (us.map token ++ (token semicolon :: rest))) table depth := by
    simpa using hready.here
  refine answers_keyword .returning hhere hlead rfl fun r hr => ?_
  change Answers token _ (Parse.returning _) r _
  unfold Parse.returning
  apply Answers.after_discard hr.advance
  rintro _ r ⟨-, hr⟩
  have hready' : Ready token r us (token semicolon :: rest) table (frame :: outer) depth (k + 1) :=
    ⟨hr, hready.follows, by simp only [List.length_cons]; omega⟩
  rw [Clause.violations]
  apply answers_value he hsemicolon hready' hdepth
  intro tree r htree hr
  exact Answers.pure
    ⟨by simp [Clause.tree?, htree], rfl, table, frame, hr, hready.follows, rfl⟩

/-- A bare expression has no end of its own: it ends where no operator follows. -/
theorem readsStatement_bare {t : α} (ht : (token t).kind = .identifier)
    (hword : (token t).value ∉ keywords) (he : Derives token .sum (t :: us) e n) :
    ReadsStatement token (t :: us) (.bare e) (n + 1) := by
  intro s rest table frame outer depth fuel hready hstops hdepth
  have henough := hready.enough
  rw [List.length_cons] at henough
  obtain ⟨k, rfl⟩ : ∃ k, fuel = k + 1 := ⟨fuel - 1, by omega⟩
  have hhere : s.At (token t :: (us.map token ++ rest)) table depth := hready.here
  unfold statement statementOf
  apply Answers.after hhere.peek
  rintro _ r ⟨rfl, hr⟩
  simp only [List.head?_cons, ht, stmt?_eq_none_iff.2 hword]
  rw [Clause.violations]
  have hready' : Ready token r (t :: us) rest table (frame :: outer) depth (k + 1) :=
    ⟨hr, hready.follows, hready.enough⟩
  apply Answers.finish (he.reads hready' hstops (by omega))
  rintro tree r ⟨htree, hr⟩
  exact Answers.pure
    ⟨by simp [Clause.tree?, htree], rfl, table, frame, hr, hready.follows, rfl⟩

theorem repeats_blockBody {stmt : Parser (Option Stmt)} {t : Token} {rest : List Token}
    (ht : t.kind = .closeCurly) : Repeats stmt (blockBody stmt) (t :: rest) where
  stop {s table depth m} hs hm := by
    obtain ⟨m, rfl⟩ : ∃ k, m = k + 1 := ⟨m - 1, by rw [List.length_cons] at hm; omega⟩
    unfold blockBody untilBrace stmtLoop
    refine ends_bind.2 (Ends.mono hs.peekKind ?_ fun _ _ => id)
    rintro _ r ⟨rfl, hr⟩
    simp only [List.head?_cons, Option.map_some, ht]
    exact ends_pure.2 ⟨rfl, hr⟩
  turn {s u us table depth m good bad} hs hu h := by
    unfold blockBody untilBrace stmtLoop
    refine ends_bind.2 (Ends.mono hs.peekKind ?_ fun _ _ => False.elim)
    rintro _ r ⟨rfl, hr⟩
    simp only [List.head?_cons, Option.map_some]
    exact h r hr

theorem repeats_topLevel (stmt : Parser (Option Stmt)) : Repeats stmt (topLevel stmt) [] where
  stop {s table depth m} hs _ := by
    cases m with
    | zero => exact ends_pure.2 ⟨rfl, hs⟩
    | succ m =>
      unfold topLevel untilEnd stmtLoop
      refine ends_bind.2 (Ends.mono hs.peekKind ?_ fun _ _ => id)
      rintro _ r ⟨rfl, hr⟩
      exact ends_pure.2 ⟨rfl, hr⟩
  turn {s u us table depth m good bad} hs hu h := by
    unfold topLevel untilEnd stmtLoop
    refine ends_bind.2 (Ends.mono hs.peekKind ?_ fun _ _ => False.elim)
    rintro _ r ⟨rfl, hr⟩
    simp only [List.head?_cons, Option.map_some]
    exact h r hr

/-- A block is a body one level deeper, between its braces. -/
theorem ReadsBody.block {s : State} {rest : List Token} {table : Table} {frame : Frame}
    {outer : Chain} {depth fuel : Nat} {l r : α} (h : ReadsBody token us cs n)
    (hready : Ready token s (l :: us ++ [r]) rest table (frame :: outer) depth (fuel + 1))
    (hl : (token l).kind = .openCurly) (hr : (token r).kind = .closeCurly)
    (hdepth : depth + (n + 1) ≤ Rules.maxNesting) :
    Answers token (Clause.violationsAll token (frame :: outer) cs)
      (block (some Rules.maxNesting) (fuel + 1) (statement .standard fuel)) s
      fun trees t => Clause.trees? token cs = some trees ∧ ∃ table' frame',
        t.At rest table' depth ∧ Follows table'.scopes (frame' :: outer) := by
  have henough := hready.enough
  simp only [List.length_append, List.length_cons, List.length_nil] at henough
  have hhere : s.At (token l :: (us.map token ++ (token r :: rest))) table depth := by
    simpa using hready.here
  have hstops : Stops .lowest (token r :: rest) :=
    Stops.of_kind hr (by decide) rfl
  unfold Parse.block Parse.blockOf
  apply Answers.after_discard (hhere.expect hl)
  rintro _ t ⟨-, ht⟩
  have hready' : Ready token t.descend us (token r :: rest) table (frame :: outer) (depth + 1)
      fuel := ⟨ht.descend, hready.follows, by simp only [List.length_cons]; omega⟩
  have hbody := h (m := fuel + 1) hready' (repeats_blockBody hr) hstops
    (by simp only [List.length_cons]; omega) (by omega)
  have hnested : Answers token (Clause.violationsAll token (frame :: outer) cs)
      (nested (some Rules.maxNesting) (blockBody (statement .standard fuel) (fuel + 1))) t
      fun trees q => Clause.trees? token cs = some trees ∧ ∃ table' frame',
        q.At (token r :: rest) table' depth ∧ Follows table'.scopes (frame' :: outer) := by
    apply ends_nested.2
    rw [if_pos (by rw [ht.depth]; omega)]
    refine Ends.mono hbody ?_ fun _ _ => id
    rintro trees q ⟨hfound, htrees, table', frame', hq, hfollows'⟩
    exact ⟨hfound, htrees, table', frame', hq.ascend, hfollows'⟩
  apply Answers.finish hnested
  rintro trees q ⟨htrees, table', frame', hq, hfollows'⟩
  apply Answers.after_discard (hq.expect hr)
  rintro _ q ⟨-, hq⟩
  exact Answers.pure ⟨htrees, table', frame', hq, hfollows'⟩

theorem ReadsBody.function {lead name colon type l r semicolon : α} {ps : List (α × α)}
    (h : ReadsBody token vs cs n) (hlead : (token lead).isWord "fn" = true)
    (hname : (token name).kind = .identifier) (hps : Signature token us ps)
    (hcolon : (token colon).kind = .colon) (htype : (token type).kind = .identifier)
    (hl : (token l).kind = .openCurly) (hr : (token r).kind = .closeCurly)
    (hsemicolon : (token semicolon).kind = .semicolon) :
    ReadsStatement token (lead :: name :: us ++ colon :: type :: l :: vs ++ [r, semicolon])
      (.function name ps type cs) (n + 1) := by
  intro s rest table frame outer depth fuel hready hstops hdepth
  have henough := hready.enough
  simp only [List.length_append, List.length_cons, List.length_nil] at henough
  obtain ⟨k, rfl⟩ : ∃ k, fuel = k + 1 := ⟨fuel - 1, by omega⟩
  -- what stands behind each part: the block, the return type, the parameters
  let behindBlock := token semicolon :: rest
  let behindType := (l :: vs ++ [r]).map token ++ behindBlock
  let behindParams := token colon :: token type :: behindType
  have hhere : s.At (token lead :: token name :: (us.map token ++ behindParams)) table depth := by
    simpa [behindParams, behindType, behindBlock] using hready.here
  have hlength : behindParams.length = vs.length + rest.length + 5 := by
    simp [behindParams, behindType, behindBlock]
    omega
  obtain ⟨named, hafter, hnamed⟩ := hready.follows.declareFunction (token name).value
  obtain ⟨entered, hafter', hentered⟩ := hnamed.enter
  refine answers_keyword .function hhere hlead rfl fun q hq => ?_
  change Answers token _ (Parse.function _ _) q _
  unfold Parse.function Parse.functionOf
  apply Answers.after_discard hq.advance
  rintro _ q ⟨-, hq⟩
  rw [Clause.violations, List.append_assoc, List.append_assoc]
  apply Answers.bind (answers_freshFunction hq hready.follows hname)
  rintro _ q ⟨rfl, hq⟩
  -- the name is in force from here on, in the body too
  refine Answers.after (hq.change hafter) fun _ q hq => ?_
  refine Answers.after (hq.change hafter') fun _ q hq => ?_
  have hreadyParams : Ready token q us behindParams entered
      (Chain.enter (Chain.declareFunction (frame :: outer) (token name).value)) depth (k + 1) :=
    ⟨hq, hentered, by omega⟩
  apply Answers.bind (readsParams_params hps hreadyParams)
  rintro _ q ⟨rfl, table', frame', hq, hfollows', hdeclare⟩
  apply Answers.after_discard (hq.expect hcolon)
  rintro _ q ⟨-, hq⟩
  apply Answers.bind (answers_returnType hq htype)
  rintro returnType q ⟨hreturnType, hq⟩
  have hreadyBlock : Ready token q (l :: vs ++ [r]) behindBlock table'
      (frame' :: Chain.declareFunction (frame :: outer) (token name).value) depth (k + 1) := by
    refine ⟨hq, hfollows', ?_⟩
    simp only [behindBlock, List.length_append, List.length_cons, List.length_nil]
    omega
  rw [Chain.enter, hdeclare]
  apply Answers.finish (h.block hreadyBlock hl hr hdepth)
  rintro trees q ⟨htrees, table'', frame'', hq, hfollows''⟩
  apply Answers.after_discard (hq.expect hsemicolon)
  rintro _ q ⟨-, hq⟩
  -- leaving the scope of the body drops what it and the parameters declared
  obtain ⟨left, hafter'', hleft⟩ := hfollows''.exit
  refine Answers.after (hq.change hafter'') fun _ q hq => ?_
  exact Answers.pure
    ⟨by simp [Clause.tree?, hreturnType, htrees], rfl, left, _, hq, hleft, rfl⟩

end Scopewise.Parse

namespace Scopewise.Grammar

open Parse (ReadsStatement ReadsBody)

variable {α : Type} {token : α → Token}

mutual

theorem Statement.reads {us : List α} {c : Clause α} {n : Nat} :
    Statement token us c n → ReadsStatement token us c n
  | .function hlead hname hps hcolon htype hl hbody hr hsemicolon =>
    hbody.reads.function hlead hname hps hcolon htype hl hr hsemicolon
  | .binding hlead hname heq he hsemicolon =>
    Parse.readsStatement_binding hlead hname heq he hsemicolon
  | .returning hlead he hsemicolon => Parse.readsStatement_returning hlead he hsemicolon
  | .bare ht hword he => Parse.readsStatement_bare ht hword he

theorem Body.reads {us : List α} {cs : List (Clause α)} {n : Nat} :
    Body token us cs n → ReadsBody token us cs n
  | .nil => Parse.readsBody_nil
  | .semicolon ht hcs => hcs.reads.semicolon ht
  | .cons hc hcs => hc.reads.body hcs.reads hc.exists_cons hcs

end

variable {tokens : List Token} {us : List α} {cs : List (Clause α)} {n : Nat}

/-- A whole program answers for the body that its tokens derive, in the scope of the built-in
functions. -/
theorem Body.answers_program (h : Body token us cs n) (hn : n ≤ Parse.Rules.maxNesting)
    (hus : us.map token = tokens.filter (·.kind ≠ .newline)) (file : String) :
    Parse.Answers token (Clause.violationsAll token [{ functions := ["echo"] }] cs)
      (Parse.program .standard tokens.length) { rest := tokens, file }
      fun trees _ => Clause.trees? token cs = some trees := by
  have hlength : us.length ≤ tokens.length := by
    have := congrArg List.length hus
    rw [List.length_map] at this
    rw [this]
    exact List.length_filter_le _ _
  let start : Parse.State := { rest := tokens, file }
  have hstart : start.At (us.map token) {} 0 := ⟨hus.symm, rfl, rfl⟩
  have houtside : Scope.Follows ({} : Scope.Table).scopes [] := .nil
  obtain ⟨entered, hafter, hentered⟩ := houtside.enter
  obtain ⟨named, hafter', hnamed⟩ := hentered.declareFunction "echo"
  unfold Parse.program Parse.programOf
  refine Parse.Answers.after (hstart.change hafter) fun _ s hs => ?_
  change Parse.Answers token _ ((do Parse.change (.function "echo"); pure ()) >>= _) s _
  rw [bind_assoc]
  refine Parse.Answers.after (hs.change hafter') fun _ s hs => ?_
  rw [pure_bind]
  have hready : Parse.Ready token s us [] named [{ functions := ["echo"] }] 0 tokens.length :=
    ⟨by simpa using hs, hnamed, by simpa using hlength⟩
  refine Parse.Answers.finish (h.reads hready (Parse.repeats_topLevel _) (by simp [Parse.Stops])
    (by simpa using hlength) (by omega)) ?_
  rintro trees s ⟨htrees, table', frame', hs, hfollows'⟩
  obtain ⟨left, hafter'', -⟩ := hfollows'.exit
  refine Parse.Answers.after (hs.change hafter'') fun _ s _ => ?_
  exact Parse.ends_bind.2 (Parse.ends_modify.2 (Parse.Answers.pure htrees))

end Scopewise.Grammar
