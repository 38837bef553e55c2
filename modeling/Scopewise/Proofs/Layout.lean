import Scopewise.Proofs.Parse.Lockstep
import Scopewise.Proofs.Token.Rendering

namespace Scopewise

namespace Token

def lexeme (t : Token) : Lexeme :=
  ⟨t.kind, t.value⟩

/-- What is written, without layout and places. -/
def lexemes (tokens : List Token) : List Lexeme :=
  (tokens.filter (·.kind ≠ .newline)).map lexeme

end Token

namespace Parse

open Token

theorem lexemes_skipNewlines (s : State) : lexemes s.skipNewlines.rest = lexemes s.rest :=
  congrArg (List.map lexeme) s.pending_skipNewlines

theorem lexemes_next (s : State) : lexemes s.next.rest = (lexemes s.rest).tail :=
  (congrArg (List.map lexeme) s.pending_next).trans List.map_tail

/-- Nothing but the reported places depends on layout and places. -/
def layout : Coupling where
  name := id
  token t t' := t.lexeme = t'.lexeme
  place spot spot' := lexemes spot.1 = lexemes spot'.1
  off _ := False
  alike d d' := d.fault = d'.fault
  name_injective := Function.injective_id
  name_reserved := id_reserved
  exists_token t := ⟨t, rfl⟩
  kind_eq h := (congrArg Lexeme.kind h).symm
  value_eq h := (congrArg Lexeme.text h).symm.trans (ite_self _).symm
  head := by
    intro s s' h
    have hhead : s.pending.head?.map lexeme = s'.pending.head?.map lexeme := by
      rw [← List.head?_map, ← List.head?_map]
      exact congrArg List.head? h
    cases hs : s.pending.head? <;> cases hs' : s'.pending.head? <;> rw [hs, hs'] at hhead
    · exact .none
    · cases hhead
    · cases hhead
    · exact .some (Option.some.inj hhead)
  skip := by
    intro s s' h
    exact (lexemes_skipNewlines s).trans (h.trans (lexemes_skipNewlines s').symm)
  next := by
    intro s s' h
    refine .inr ?_
    change lexemes s.next.rest = lexemes s'.next.rest
    rw [lexemes_next, lexemes_next]
    exact congrArg List.tail h
  off_of_suffix _ := id
  here _ _ := rfl
  there fault h := congrArg fault.withText (congrArg Lexeme.text h)

theorem parse_of_lexemes_eq {tokens tokens' : List Token} (h : lexemes tokens = lexemes tokens')
    (file file' : String) :
    match parse tokens file with
    | .ok trees => parse tokens' file' = .ok trees
    | .error d => ∃ d', parse tokens' file' = .error d' ∧ d.fault = d'.fault := by
  have htogether := layout.parse_together file file' h
  rw [parse]
  cases hrun : run .standard tokens file with
  | ok trees last =>
    rw [hrun] at htogether
    obtain hoff | hparse := htogether
    · exact hoff.elim
    · rw [hparse]
      exact congrArg _ (Stmt.renameAll_id trees)
  | error failure last =>
    rw [hrun] at htogether
    obtain hoff | hparse := htogether
    · exact hoff.elim
    · exact hparse

/-- Newlines, lines, files and labels decide nothing but the place where a fault is reported. -/
theorem parse_mapError_eq (tokens tokens' : List Token) (file file' : String)
    (h : lexemes tokens = lexemes tokens') :
    (parse tokens file).mapError (·.fault) = (parse tokens' file').mapError (·.fault) := by
  have hparse := parse_of_lexemes_eq h file file'
  cases hresult : parse tokens file with
  | ok trees =>
    rw [hresult] at hparse
    rw [hparse]
  | error d =>
    rw [hresult] at hparse
    obtain ⟨d', hd', hfault⟩ := hparse
    rw [hd']
    exact congrArg Except.error hfault

/-- A call over three lines of one file, and on one line of another: the argument is not declared in
either, and only the places differ. -/
theorem parse_mapError_eq_call :
    let spread : List Token := [⟨.newline, "\n", 1, "f"⟩, ⟨.identifier, "echo", 2, "f"⟩,
      ⟨.newline, "\n", 2, "f"⟩, ⟨.openParen, "(", 3, "f"⟩, ⟨.newline, "\n", 3, "f"⟩,
      ⟨.identifier, "x", 4, "f"⟩, ⟨.closeParen, ")", 4, "f"⟩]
    let flat : List Token := [⟨.identifier, "echo", 9, "g"⟩, ⟨.openParen, "(", 9, "g"⟩,
      ⟨.identifier, "x", 9, "h"⟩, ⟨.closeParen, ")", 9, "g"⟩]
    (parse spread "f").mapError (·.fault) = (parse flat "g").mapError (·.fault) ∧
      parse spread "f" = .error ⟨.variableUndeclared "x", 4, "f"⟩ ∧
      parse flat "g" = .error ⟨.variableUndeclared "x", 9, "h"⟩ := by
  intro spread flat
  exact ⟨parse_mapError_eq spread flat "f" "g" (by decide), by decide +kernel, by decide +kernel⟩

end Parse

end Scopewise
