import Scopewise.Proofs.Parse.Meter

namespace Scopewise.Parse

variable {s : State}

theorem run_statement_closing (rules : Rules) (n : Nat)
    (h : s.pending.head?.map (·.kind) = some .closeCurly) :
    (statement rules (n + 1)).run s = .ok none s.skipNewlines := by
  obtain ⟨u, hu, hkind⟩ := Option.map_eq_some_iff.1 h
  have hends : Ends (statement rules (n + 1)) s (fun a t => a = none ∧ t = s.skipNewlines)
      fun _ _ => False := by
    unfold statement statementOf
    refine ends_bind.2 (ends_peek.2 ?_)
    rw [hu]
    dsimp only
    rw [hkind]
    exact ⟨rfl, rfl⟩
  obtain ⟨_, _, hrun, rfl, rfl⟩ := hends.exists_ok
  exact hrun

/-- An expression that is read takes a token, and so does a statement, except in front of a closing
brace, where it takes none and yields none. With more fuel than there are tokens a metered parse is
the parse, whatever it would fail with: the fuel is never used up, no loop comes round without
having taken a token, and no loop asks for a statement in front of a closing brace. -/
theorem parse_progresses :
    (∀ n floor s, Passes (expression .standard n floor) s (Consumes s)) ∧
    (∀ n s, Passes (statement .standard n) s (ConsumesUnlessClosing s)) ∧
    (∀ n s, s.pending.head?.map (·.kind) = some .closeCurly →
      (statement .standard (n + 1)).run s = .ok none s.skipNewlines) ∧
    ∀ meter tokens file fuel, tokens.length < fuel →
      Meter.run meter .standard fuel tokens file = run .standard tokens file := by
  refine ⟨passes_expression .standard, fun n s => (proceeds_statement .standard n s).passes,
    fun n _ => run_statement_closing .standard n, ?_⟩
  intro meter tokens file fuel hfuel
  have hmetered : (program .standard tokens.length).run { rest := tokens, file } =
      (meter.program .standard fuel).run { rest := tokens, file } :=
    run_program_metered le_rfl hfuel
  exact hmetered.symm

/-- A call that is not closed, in front of a brace that was not opened. -/
theorem parse_progresses_unclosed :
    let tokens : List Token := [⟨.identifier, "echo", 1, "f"⟩, ⟨.openParen, "(", 1, "f"⟩,
      ⟨.closeCurly, "\x7d", 1, "f"⟩]
    let last : State := { rest := tokens.drop 2, file := "f" }
    let stop : Failure := ⟨⟨.unmatchedBrace, ⟨0, "f"⟩⟩, 0⟩
    (tokens.length < 4 ∧ outcome (Meter.run ⟨stop, stop, stop⟩ .standard 4 tokens "f") =
      .error ⟨.unexpectedToken "\x7d", ⟨1, "f"⟩⟩) ∧
    last.pending.head?.map (·.kind) = some .closeCurly ∧
      (statement .standard 1).run last = .ok none last.skipNewlines := by
  intro tokens last stop
  have hlength : tokens.length < 4 := by decide
  have hclosing : last.pending.head?.map (·.kind) = some .closeCurly := by decide
  refine ⟨⟨hlength, ?_⟩, hclosing, parse_progresses.2.2.1 0 last hclosing⟩
  rw [parse_progresses.2.2.2 ⟨stop, stop, stop⟩ tokens "f" 4 hlength]
  decide +kernel

end Scopewise.Parse
