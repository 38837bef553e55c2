import Scopewise.Proofs.Language
import Scopewise.Proofs.Parse.Climb
import Scopewise.Proofs.Parse.Monitor

namespace Scopewise

theorem BinaryOp.kind_not_operand (op : BinaryOp) :
    ¬(op.kind = .integer ∨ op.kind = .identifier) := by
  cases op <;> decide

theorem BinaryOp.kind_ne_openParen (op : BinaryOp) : op.kind ≠ .openParen := by
  cases op <;> decide

theorem PrefixOp.kind_not_operand (op : PrefixOp) :
    ¬(op.kind = .integer ∨ op.kind = .identifier) := by
  cases op <;> decide

theorem BinaryOp.rank_level_lt_next (op : BinaryOp) : op.level.rank < op.level.next.rank := by
  cases op <;> decide

namespace Grammar

/-- Operands of one token each, with operators of one level between them. -/
inductive Flat (level : Level) : List Token → Prop
  | operand {t : Token} (ht : t.kind = .integer ∨ t.kind = .identifier) : Flat level [t]
  | operator {t o : Token} {op : BinaryOp} {us : List Token}
      (ht : t.kind = .integer ∨ t.kind = .identifier) (ho : o.kind = op.kind)
      (hop : op.level = level) (h : Flat level us) : Flat level (t :: o :: us)

variable {level : Level} {us vs : List Token} {e : Phrase Token} {n : Nat}

namespace Flat

theorem head {t : Token} (h : Flat level (t :: us)) :
    t.kind = .integer ∨ t.kind = .identifier := by
  cases h with
  | operand ht | operator ht => exact ht

theorem second {t o : Token} (h : Flat level (t :: o :: us)) :
    ∃ op : BinaryOp, o.kind = op.kind ∧ op.level = level := by
  cases h with
  | operator ht ho hop => exact ⟨_, ho, hop⟩

/-- An operator of a flat expression has flat expressions on both sides. -/
theorem split {o : Token} {op : BinaryOp} (ho : o.kind = op.kind) :
    (us : List Token) → Flat level (us ++ o :: vs) →
      Flat level us ∧ op.level = level ∧ Flat level vs
  | [], h => absurd (ho ▸ h.head) op.kind_not_operand
  | [t], h => by
    cases h with
    | @operator _ _ op' _ ht ho' hop h =>
      have hsame : op' = op := by
        have hkind := BinaryOp.ofKind?_kind op
        rw [← ho, ho', BinaryOp.ofKind?_kind] at hkind
        exact Option.some.inj hkind
      exact ⟨.operand ht, hsame ▸ hop, h⟩
  | t :: o' :: us, h => by
    cases h with
    | operator ht ho' hop h =>
      obtain ⟨hus, hlevel, hvs⟩ := split ho us h
      exact ⟨.operator ht ho' hop hus, hlevel, hvs⟩

end Flat

/-- The levels that a flat expression opens, however many operators it has. -/
def flatLevels (us : List Token) : Nat :=
  if us.length = 1 then 0 else 1

/-- A flat expression counts one level for all of its operators, and what holds together more
tightly than they do is a single operand. -/
theorem Derives.levels_of_flat {level' : Level} {us : List Token} {e : Phrase Token} {n : Nat} :
    Derives id level' us e n → Flat level us →
      n = flatLevels us ∧ (level.rank < level'.rank → us.length = 1)
  | .integer _, _ | .variable _, _ => ⟨rfl, fun _ => rfl⟩
  | .callNil _ hl _, h | .call _ hl _, h => by
    obtain ⟨op, hop, -⟩ := h.second
    exact absurd (hop.symm.trans hl) op.kind_ne_openParen
  | .group hl _ _, h => absurd (hl ▸ h.head) (by decide)
  | .sign ht _, h => absurd (ht ▸ h.head) (PrefixOp.kind_not_operand _)
  | .lift he, h => by
    obtain ⟨hn, hone⟩ := he.levels_of_flat h
    exact ⟨hn, fun hlt => hone (Nat.lt_of_lt_of_le hlt (Level.rank_le_rank_next _))⟩
  | @Derives.binary _ _ _ op _ us vs _ _ n m hop hl ht hr, h => by
    obtain ⟨hus, hlevel, hvs⟩ := h.split ht us
    have hleft := (hl.levels_of_flat hus).1
    obtain ⟨hright, hone⟩ := hr.levels_of_flat hvs
    -- the right operand is a single token, for its operators would bind more tightly
    have hsingle : vs.length = 1 := hone (by rw [← hlevel, ← hop]; exact op.rank_level_lt_next)
    have hpos := hl.length_pos
    refine ⟨?_, fun hlt => absurd hlt (by rw [← hlevel, ← hop]; exact Nat.lt_irrefl _)⟩
    unfold flatLevels at hleft hright ⊢
    rw [if_pos hsingle] at hright
    rw [List.length_append, List.length_cons, hsingle, if_neg (by omega)]
    split at hleft <;> omega

theorem exists_derives_operand {t : Token} (ht : t.kind = .integer ∨ t.kind = .identifier)
    (level : Level) : ∃ e, Derives id level [t] e 0 := by
  obtain ht | ht := ht
  · exact ⟨_, (Derives.integer ht).loosen level (by cases level <;> decide)⟩
  · exact ⟨_, (Derives.variable ht).loosen level (by cases level <;> decide)⟩

/-- What is flat is an expression. -/
theorem Flat.derives (h : Flat level us) {o : Token} {op : BinaryOp} {ts : List Token}
    (ho : o.kind = op.kind) (hop : op.level = level) (hts : Derives id level ts e n) :
    ∃ e' n', Derives id level (ts ++ o :: us) e' n' := by
  induction h generalizing ts o op e n with
  | operand ht =>
    obtain ⟨r, hr⟩ := exists_derives_operand ht level.next
    exact ⟨_, _, .binary hop hts ho hr⟩
  | operator ht ho' hop' _ ih =>
    obtain ⟨r, hr⟩ := exists_derives_operand ht level.next
    -- the operators associate to the left: the first operand goes to what was read before it
    have hleft := Derives.binary hop hts ho hr
    obtain ⟨e', n', he'⟩ := ih ho' hop' hleft
    exact ⟨e', n', by simpa using he'⟩

theorem Flat.exists_derives (h : Flat level us) : ∃ e, Derives id .sum us e (flatLevels us) := by
  have hderives : ∃ e n, Derives id level us e n := by
    cases h with
    | operand ht =>
      obtain ⟨e, he⟩ := exists_derives_operand ht level
      exact ⟨e, 0, he⟩
    | operator ht ho hop h =>
      obtain ⟨e, he⟩ := exists_derives_operand ht level
      exact h.derives ho hop he
  obtain ⟨e, n, he⟩ := hderives
  obtain ⟨rfl, -⟩ := he.levels_of_flat h
  exact ⟨e, he.loosen .sum (Nat.zero_le _)⟩

end Grammar

namespace Parse

open Grammar

theorem monitors_run (tokens : List Token) :
    Monitors Rules.maxNesting (program .standard tokens.length)
      (program .unlimited tokens.length) :=
  monitors_program .standard tokens.length

/-- A parse that succeeds has had as many levels open as its tokens count. -/
theorem peak_of_parse {tokens : List Token} {file : String} {trees : List Stmt}
    {clauses : List (Clause Token)} {levels : Nat} (h : parse tokens file = .ok trees)
    (hbody : Body id (tokens.filter (·.kind ≠ .newline)) clauses levels) :
    (ending (run .standard tokens file)).peak = levels := by
  have hclimbs := hbody.climbs_program file
  unfold Yields Ends at hclimbs
  change outcome ((program .standard tokens.length).run { rest := tokens, file }) = .ok trees at h
  change (ending ((program .standard tokens.length).run { rest := tokens, file })).peak = levels
  cases hrun : (program .standard tokens.length).run { rest := tokens, file } with
  | ok trees' last =>
    rw [hrun] at hclimbs
    exact hclimbs
  | error failure last =>
    rw [hrun] at h
    cases h

/-- The bound on nesting only watches: it changes nothing as long as no more levels are open, and
otherwise is what is reported. The most that are open on accepted tokens is what any derivation of
them counts, and operators of one level between operands of one token count one together. -/
theorem parse_eq_unlimited (tokens : List Token) (file : String) :
    let free := run .unlimited tokens file
    ((ending free).peak ≤ Rules.maxNesting → parse tokens file = outcome free) ∧
    (Rules.maxNesting < (ending free).peak →
      ∃ position, parse tokens file = .error ⟨.nestingTooDeep Rules.maxNesting, position⟩) ∧
    (∀ trees, parse tokens file = .ok trees →
      (∃ clauses levels, Body id (tokens.filter (·.kind ≠ .newline)) clauses levels ∧
        Clause.trees? id clauses = some trees) ∧
      ∀ clauses levels, Body id (tokens.filter (·.kind ≠ .newline)) clauses levels →
        (ending free).peak = levels ∧ (ending (run .standard tokens file)).peak = levels) ∧
    ∀ level us, Flat level us →
      (∃ e, Derives id .sum us e (flatLevels us)) ∧
      ∀ e n, Derives id .sum us e n → n = flatLevels us := by
  intro free
  have hmonitors := monitors_run tokens
  have hagrees : (ending free).peak ≤ Rules.maxNesting → run .standard tokens file = free :=
    hmonitors.agrees { rest := tokens, file }
  have hstops (hpeak : Rules.maxNesting < (ending free).peak) :
      ∃ position, parse tokens file = .error ⟨.nestingTooDeep Rules.maxNesting, position⟩ := by
    obtain ⟨position, depth, last, hrun⟩ :=
      hmonitors.stops { rest := tokens, file } (Nat.zero_le _) hpeak
    exact ⟨position, congrArg outcome hrun⟩
  refine ⟨fun hpeak => congrArg outcome (hagrees hpeak), hstops, ?_, ?_⟩
  · intro trees htrees
    obtain ⟨⟨clauses, levels, hbody, -, hclauses⟩, -⟩ := generates_of_parse htrees
    refine ⟨⟨clauses, levels, hbody, hclauses⟩, fun clauses levels hbody => ?_⟩
    -- what is accepted stays within the bound, so the two runs are one
    have hpeak : (ending free).peak ≤ Rules.maxNesting := by
      by_contra hpeak
      obtain ⟨position, herror⟩ := hstops (Nat.not_le.1 hpeak)
      rw [htrees] at herror
      cases herror
    have hlevels := peak_of_parse htrees hbody
    exact ⟨hagrees hpeak ▸ hlevels, hlevels⟩
  · intro level us hus
    exact ⟨hus.exists_derives, fun e n he => (he.levels_of_flat hus).1⟩

/-- A call whose only argument stands in one parenthesis too many. -/
theorem parse_eq_unlimited_parens :
    let tokens : List Token :=
      ⟨.identifier, "echo", 1, "f"⟩ :: List.replicate 256 ⟨.openParen, "(", 1, "f"⟩
    Rules.maxNesting < (ending (run .unlimited tokens "f")).peak ∧
      ∃ position, parse tokens "f" = .error ⟨.nestingTooDeep Rules.maxNesting, position⟩ := by
  intro tokens
  have hpeak : Rules.maxNesting < (ending (run .unlimited tokens "f")).peak := by decide +kernel
  exact ⟨hpeak, (parse_eq_unlimited tokens "f").2.1 hpeak⟩

end Parse

end Scopewise
