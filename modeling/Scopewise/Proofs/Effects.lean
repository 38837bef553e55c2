import Scopewise.Proofs.Parse.Course

namespace Scopewise.Parse

variable {α : Type} {s : State}

/-- The scopes and the number of open levels are as they were. -/
def State.Untouched (s t : State) : Prop :=
  t.scopes = s.scopes ∧ t.depth = s.depth

theorem Proceeds.untouched {limit : Option Nat} {p : Parser α} {good : α → State → Prop}
    (h : Proceeds limit .none p s good) :
    Ends p s (fun _ t => s.Untouched t) fun _ t => s.Untouched t :=
  Ends.mono h (fun _ _ ha => ⟨ha.2.1, ha.1.depth⟩) fun _ _ he => ⟨he.2, he.1.depth⟩

/-- A statement that begins with a name, and not with a keyword, is an expression. -/
theorem proceeds_statement_of_bare {rules : Rules} {effect : Effect} {u : Token}
    (hhead : s.pending.head? = some u) (hkind : u.kind = .identifier)
    (hword : rules.stmt? u.value = none) (n : Nat) :
    Proceeds rules.limit effect (statement rules n) s fun _ _ => True := by
  cases n with
  | zero => exact .failHere
  | succ n =>
    refine Proceeds.peek.bind ?_
    rintro _ t - ⟨rfl, -⟩
    simp only [hhead, hkind, hword]
    exact (proceeds_expression rules (n + 1) .lowest t).bind fun _ _ _ _ => .pure trivial

/-- Expressions, returned values and bare expressions leave the scopes alone. A binding declares its
name in the innermost scope if it succeeds, and otherwise nothing. A function declares its name
there and closes its own scope if it succeeds; if it fails, either nothing has been done yet, or the
name is declared and at least one scope is left open. All of them, and blocks, close the levels that
they open. -/
theorem scope_effects (s : State) (n : Nat) :
    (∀ floor, Ends (expression .standard n floor) s (fun _ t => s.Untouched t)
      fun _ t => s.Untouched t) ∧
    Ends (returning (expression .standard n .lowest)) s (fun _ t => s.Untouched t)
      (fun _ t => s.Untouched t) ∧
    (∀ u, s.pending.head? = some u → u.kind = .identifier →
      Rules.standard.stmt? u.value = none →
      Ends (statement .standard n) s (fun _ t => s.Untouched t) fun _ t => s.Untouched t) ∧
    Ends (binding (expression .standard n .lowest)) s
      (fun stmt t => Binds s stmt t ∧ t.depth = s.depth) (fun _ t => s.Untouched t) ∧
    Ends (function n (block Rules.standard.limit n (statement .standard n))) s
      (fun stmt t => Declares s stmt t ∧ t.depth = s.depth)
      (fun _ t => (t.scopes = s.scopes ∨ LeavesOpen s t) ∧ t.depth = s.depth) ∧
    Ends (block Rules.standard.limit n (statement .standard n)) s
      (fun _ t => t.depth = s.depth) (fun _ t => t.depth = s.depth) := by
  have hexpression (floor : BindingPower) (s : State) :
      Proceeds (some Rules.maxNesting) .none (expression .standard n floor) s (Consumes s) :=
    proceeds_expression .standard n floor s
  have hblock (s : State) : Proceeds (some Rules.maxNesting) .innermost
      (block Rules.standard.limit n (statement .standard n)) s fun _ _ => True :=
    proceeds_block (proceeds_statement .standard n) n
  refine ⟨fun floor => (hexpression floor s).untouched,
    (proceeds_returning (hexpression .lowest)).untouched,
    fun u hhead hkind hword => (proceeds_statement_of_bare hhead hkind hword n).untouched,
    ?_, ?_, ?_⟩
  · exact Ends.mono (ends_binding (hexpression .lowest)) (fun _ _ h => ⟨h.2.2, h.1.depth⟩)
      fun _ _ h => ⟨h.2, h.1.depth⟩
  · exact Ends.mono (ends_function hblock n) (fun _ _ h => ⟨h.2.2, h.1.depth⟩)
      fun _ _ h => ⟨h.2, h.1.depth⟩
  · exact Ends.mono (hblock s) (fun _ _ h => h.1.depth) fun _ _ h => h.1.depth

/-- A name that is no keyword, with an operand missing behind it: the statement fails at the
end of the input, and nothing is changed. -/
theorem scope_effects_bare :
    let s : State :=
      { rest := [⟨.identifier, "x", 1, "f"⟩, ⟨.plus, "+", 1, "f"⟩]
        file := "f"
        scopes := ⟨[Scope.declareVariable {} "x" .mutable, {}]⟩
        depth := 3 }
    s.pending.head? = some ⟨.identifier, "x", 1, "f"⟩ ∧
      Rules.standard.stmt? "x" = none ∧
      outcome ((statement .standard 2).run s) = .error ⟨.unexpectedEnd "expression", ⟨1, "f"⟩⟩ ∧
      Ends (statement .standard 2) s (fun _ t => s.Untouched t) fun _ t => s.Untouched t := by
  intro s
  have hhead : s.pending.head? = some ⟨.identifier, "x", 1, "f"⟩ := by decide +kernel
  have hword : Rules.standard.stmt? "x" = none := by decide +kernel
  exact ⟨hhead, hword, by decide +kernel, (scope_effects s 2).2.2.1 _ hhead rfl hword⟩

end Scopewise.Parse
