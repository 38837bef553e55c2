import Scopewise.Proofs.Language

namespace Scopewise

theorem BinaryOp.kind_ne_newline (op : BinaryOp) : op.kind ≠ .newline := by
  cases op <;> decide

theorem PrefixOp.kind_ne_newline (op : PrefixOp) : op.kind ≠ .newline := by
  cases op <;> decide

namespace Grammar

variable {α : Type} {token : α → Token}

/-- None of the tokens is layout. -/
def Solid (token : α → Token) (us : List α) : Prop :=
  ∀ u ∈ us, (token u).kind ≠ .newline

namespace Solid

variable {us vs : List α} {u : α}

theorem nil : Solid token [] := by
  simp [Solid]

theorem cons {kind : Token.Kind} (hu : (token u).kind = kind) (hkind : kind ≠ .newline)
    (h : Solid token us) : Solid token (u :: us) := by
  intro v hv
  obtain rfl | hv := List.mem_cons.1 hv
  · rw [hu]
    exact hkind
  · exact h v hv

theorem append (h : Solid token us) (h' : Solid token vs) : Solid token (us ++ vs) := by
  intro v hv
  obtain hv | hv := List.mem_append.1 hv
  · exact h v hv
  · exact h' v hv

end Solid

theorem kind_of_isWord {t : Token} {word : String} (h : t.isWord word = true) :
    t.kind = .identifier := by
  simp_all [Token.isWord]

mutual

theorem Derives.solid {level : Level} {us : List α} {e : Phrase α} {n : Nat} :
    Derives token level us e n → Solid token us
  | .integer ht => .cons ht (by decide) .nil
  | .variable ht => .cons ht (by decide) .nil
  | .callNil ht hl hr => .cons ht (by decide) (.cons hl (by decide) (.cons hr (by decide) .nil))
  | .call ht hl hargs => .cons ht (by decide) (.cons hl (by decide) hargs.solid)
  | .group hl he hr => .append (.cons hl (by decide) he.solid) (.cons hr (by decide) .nil)
  | .sign ht he => .cons ht (PrefixOp.kind_ne_newline _) he.solid
  | .lift he => he.solid
  | .binary _ hl ht hr => hl.solid.append (.cons ht (BinaryOp.kind_ne_newline _) hr.solid)

theorem Arguments.solid {us : List α} {es : List (Phrase α)} {n : Nat} :
    Arguments token us es n → Solid token us
  | .last he hr => he.solid.append (.cons hr (by decide) .nil)
  | .cons he hc hes => he.solid.append (.cons hc (by decide) hes.solid)

end

theorem Parameters.solid {us : List α} {ps : List (α × α)} (h : Parameters token us ps) :
    Solid token us := by
  induction h with
  | last hname hcolon htype hr =>
    exact .cons hname (by decide) (.cons hcolon (by decide) (.cons htype (by decide)
      (.cons hr (by decide) .nil)))
  | cons hname hcolon htype hc _ ih =>
    exact .cons hname (by decide) (.cons hcolon (by decide) (.cons htype (by decide)
      (.cons hc (by decide) ih)))

theorem Signature.solid {us : List α} {ps : List (α × α)} (h : Signature token us ps) :
    Solid token us := by
  cases h with
  | nil hl hr => exact .cons hl (by decide) (.cons hr (by decide) .nil)
  | params hl hps => exact .cons hl (by decide) hps.solid

mutual

theorem Statement.solid {us : List α} {c : Clause α} {n : Nat} :
    Statement token us c n → Solid token us
  | .function hlead hname hps hcolon htype hl hbody hr hsemicolon =>
    have hfront := Solid.cons (kind_of_isWord hlead) (by decide) (.cons hname (by decide) hps.solid)
    have hinner := Solid.cons hcolon (by decide) (.cons htype (by decide)
      (.cons hl (by decide) hbody.solid))
    (hfront.append hinner).append (.cons hr (by decide) (.cons hsemicolon (by decide) .nil))
  | .binding hlead hname heq he hsemicolon =>
    have hfront := Solid.cons (kind_of_isWord hlead) (by decide) (.cons hname (by decide)
      (.cons heq (by decide) he.solid))
    hfront.append (.cons hsemicolon (by decide) .nil)
  | .returning hlead he hsemicolon =>
    .append (.cons (kind_of_isWord hlead) (by decide) he.solid) (.cons hsemicolon (by decide) .nil)
  | .bare _ _ he => he.solid

theorem Body.solid {us : List α} {cs : List (Clause α)} {n : Nat} :
    Body token us cs n → Solid token us
  | .nil => .nil
  | .semicolon ht hcs => .cons ht (by decide) hcs.solid
  | .cons hc hcs => hc.solid.append hcs.solid

end

end Grammar

namespace Parse

open Grammar

/-- Why a run failed. -/
def failure? {α : Type} : EStateM.Result Failure State α → Option Failure
  | .ok _ _ => none
  | .error failure _ => some failure

/-- The end of the input is reported only where the text can go on: some continuation of the tokens
is accepted, unless all levels of nesting were open. -/
theorem exists_parse_append (tokens : List Token) (file : String) (failure : Failure)
    (expected : String) (hfailure : failure? (run .standard tokens file) = some failure)
    (hfault : failure.diagnostic.fault = .unexpectedEnd expected)
    (hdepth : failure.depth < Rules.maxNesting) :
    ∃ more trees, parse (tokens ++ more) file = .ok trees := by
  have hviable := viable_program tokens file .nil rfl
  unfold Ends at hviable
  change failure? ((program .standard tokens.length).run { rest := tokens, file }) = _ at hfailure
  cases hrun : (program .standard tokens.length).run { rest := tokens, file } with
  | ok trees last =>
    rw [hrun] at hfailure
    cases hfailure
  | error e last =>
    rw [hrun] at hviable hfailure
    obtain rfl := Option.some.inj hfailure
    obtain ⟨-, more, -, clauses, levels, hbody, hlevels, hnil⟩ :=
      hviable ⟨⟨expected, hfault⟩, hdepth⟩
    obtain ⟨trees, htrees, hresolves⟩ := (Clause.violationsAll_eq_nil_iff _ _).1 hnil
    -- what was added is not layout, so it is what the parse of the whole reads behind the tokens
    have hfilter : (tokens ++ more).filter (·.kind ≠ .newline) =
        tokens.filter (·.kind ≠ .newline) ++ more := by
      rw [List.filter_append]
      congr 1
      apply List.filter_eq_self.2
      intro u hu
      simpa using hbody.solid u (List.mem_append_right _ hu)
    refine ⟨more, trees, parse_of_generates ⟨clauses, levels, ?_, hlevels, htrees⟩ hresolves file⟩
    rw [hfilter]
    exact hbody

/-- A call in a block is cut off behind a comma: an argument, a parenthesis and what ends the value,
the block and the function can be added. -/
theorem exists_parse_append_call :
    let tokens : List Token := [⟨.identifier, "fn", 1, "f"⟩, ⟨.identifier, "g", 1, "f"⟩,
      ⟨.openParen, "(", 1, "f"⟩, ⟨.identifier, "a", 1, "f"⟩, ⟨.colon, ":", 1, "f"⟩,
      ⟨.identifier, "int", 1, "f"⟩, ⟨.closeParen, ")", 1, "f"⟩, ⟨.colon, ":", 1, "f"⟩,
      ⟨.identifier, "int", 1, "f"⟩, ⟨.openCurly, "\x7b", 1, "f"⟩, ⟨.newline, "\n", 1, "f"⟩,
      ⟨.identifier, "let", 2, "f"⟩, ⟨.identifier, "b", 2, "f"⟩, ⟨.assignment, "=", 2, "f"⟩,
      ⟨.identifier, "g", 2, "f"⟩, ⟨.openParen, "(", 2, "f"⟩, ⟨.identifier, "a", 2, "f"⟩,
      ⟨.comma, ",", 2, "f"⟩, ⟨.newline, "\n", 2, "f"⟩]
    failure? (run .standard tokens "f") = some ⟨⟨.unexpectedEnd "expression", 3, "f"⟩, 3⟩ ∧
      ∃ more trees, parse (tokens ++ more) "f" = .ok trees := by
  intro tokens
  have hfailure : failure? (run .standard tokens "f") =
      some ⟨⟨.unexpectedEnd "expression", 3, "f"⟩, 3⟩ := by
    decide +kernel
  exact ⟨hfailure, exists_parse_append tokens "f" _ _ hfailure rfl (by decide)⟩

end Parse

end Scopewise
