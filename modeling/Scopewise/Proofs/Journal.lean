import Scopewise.Proofs.Parse.Account
import Scopewise.Proofs.Parse.Monitor

namespace Scopewise.Parse

theorem journal_eq_replayProgram {tokens : List Token} {file : String} {trees : List Stmt}
    (h : parse tokens file = .ok trees) :
    (ending (run .standard tokens file)).journal.toList = Stmt.replayProgram trees := by
  have hsound := sound_program tokens file
  unfold Sound Ends at hsound
  change outcome ((program .standard tokens.length).run { rest := tokens, file }) = .ok trees at h
  change (ending ((program .standard tokens.length).run { rest := tokens, file })).journal.toList =
    Stmt.replayProgram trees
  cases hrun : (program .standard tokens.length).run { rest := tokens, file } with
  | ok trees' last =>
    rw [hrun] at hsound h
    obtain rfl : trees' = trees := Except.ok.inj h
    exact hsound.2.2
  | error failure last =>
    rw [hrun] at h
    cases h

/-- The journal of a parse that succeeds is the replay of its tree, and so are its lines. -/
theorem journal_of_parse (tokens : List Token) (file : String) (trees : List Stmt)
    (h : parse tokens file = .ok trees) :
    (ending (run .standard tokens file)).journal.toList = Stmt.replayProgram trees ∧
      (ending (run .standard tokens file)).journal.toList.map Event.describe =
        Stmt.transcriptProgram trees := by
  have hjournal := journal_eq_replayProgram h
  exact ⟨hjournal, by rw [hjournal, Stmt.map_describe_replayProgram]⟩

/-- The parameter shadows a mutable variable of the program. -/
theorem journal_of_parse_shadowing :
    let tokens : List Token := [⟨.identifier, "let", 1, "f"⟩, ⟨.identifier, "x", 1, "f"⟩,
      ⟨.assignment, "=", 1, "f"⟩, ⟨.integer, "1", 1, "f"⟩, ⟨.semicolon, ";", 1, "f"⟩,
      ⟨.newline, "\n", 1, "f"⟩, ⟨.identifier, "fn", 2, "f"⟩, ⟨.identifier, "g", 2, "f"⟩,
      ⟨.openParen, "(", 2, "f"⟩, ⟨.identifier, "x", 2, "f"⟩, ⟨.colon, ":", 2, "f"⟩,
      ⟨.identifier, "int", 2, "f"⟩, ⟨.closeParen, ")", 2, "f"⟩, ⟨.colon, ":", 2, "f"⟩,
      ⟨.identifier, "void", 2, "f"⟩, ⟨.openCurly, "\x7b", 2, "f"⟩, ⟨.closeCurly, "\x7d", 2, "f"⟩,
      ⟨.semicolon, ";", 2, "f"⟩]
    let trees : List Stmt :=
      [.binding .mutable "x" (.integer 1), .function "g" [⟨"x", "int"⟩] .void []]
    parse tokens "f" = .ok trees ∧
      (ending (run .standard tokens "f")).journal.toList = Stmt.replayProgram trees ∧
      (ending (run .standard tokens "f")).journal.toList.map Event.describe =
        ["DEBUG entered scope at depth 1", "DEBUG declaring function `echo`",
          "DEBUG declaring mutable variable `x`", "DEBUG declaring function `g`",
          "DEBUG entered scope at depth 2", "DEBUG `x` shadows mutable binding as immutable",
          "DEBUG exited scope, depth now 1", "DEBUG exited scope, depth now 0",
          "DEBUG parsed 2 top-level statements"] := by
  intro tokens trees
  have hparse : parse tokens "f" = .ok trees := by decide +kernel
  obtain ⟨hjournal, hlines⟩ := journal_of_parse tokens "f" trees hparse
  exact ⟨hparse, hjournal, hlines.trans (by decide +kernel)⟩

end Scopewise.Parse
