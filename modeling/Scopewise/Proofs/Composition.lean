import Scopewise.Proofs.Layout
import Scopewise.Proofs.RoundTrip
import Scopewise.Proofs.Token.Joined
import Scopewise.Proofs.Widening

namespace Scopewise

namespace Grammar

variable {α : Type} {token : α → Token}

theorem Body.append {us vs : List α} {cs ds : List (Clause α)} {n m : Nat} :
    Body token us cs n → Body token vs ds m → Body token (us ++ vs) (cs ++ ds) (max n m)
  | .nil, h => by rwa [Nat.zero_max]
  | .semicolon ht hcs, h => .semicolon ht (hcs.append h)
  | .cons hc hcs, h => by
    rw [List.append_assoc, Nat.max_assoc]
    exact .cons hc (hcs.append h)

theorem Clause.trees?_append {cs ds : List (Clause α)} {trees trees' : List Stmt}
    (h : trees? token cs = some trees) (h' : trees? token ds = some trees') :
    trees? token (cs ++ ds) = some (trees ++ trees') := by
  induction cs generalizing trees with
  | nil =>
    obtain rfl : [] = trees := Option.some.inj h
    exact h'
  | cons c cs ih =>
    obtain ⟨t, ht, ts, hts, rfl⟩ := trees?_cons_eq_some_iff.1 h
    exact trees?_cons_eq_some_iff.2 ⟨t, ht, _, ih hts, rfl⟩

theorem Generates.append {tokens tokens' : List Token} {program program' : List Stmt}
    (h : Generates tokens program) (h' : Generates tokens' program') :
    Generates (tokens ++ tokens') (program ++ program') := by
  obtain ⟨clauses, levels, hbody, hlevels, htrees⟩ := h
  obtain ⟨clauses', levels', hbody', hlevels', htrees'⟩ := h'
  refine ⟨clauses ++ clauses', max levels levels', ?_, Nat.max_le.2 ⟨hlevels, hlevels'⟩,
    Clause.trees?_append htrees htrees'⟩
  rw [List.filter_append]
  exact hbody.append hbody'

end Grammar

theorem Token.lexemes_map_down (lines : Nat) (tokens : List Token) :
    lexemes (tokens.map (down lines)) = lexemes tokens := by
  unfold lexemes
  rw [List.filter_map, List.map_map]
  rfl

namespace Parse

open Token Grammar

/-- Accepted texts that declare no variable and no function in common can be joined. -/
theorem parseSource_joined {source source' file : String} {program program' : List Stmt}
    (h : parseSource source file = .ok program) (h' : parseSource source' file = .ok program')
    (hbound : (Stmt.boundNames program).Disjoint (Stmt.boundNames program'))
    (hfunctions : (Stmt.functionNames program).Disjoint (Stmt.functionNames program')) :
    parseSource (source ++ "\n" ++ source') file = .ok (program ++ program') := by
  obtain ⟨tokens, htokens, hparse⟩ := parseSource_eq_ok_iff.1 h
  obtain ⟨tokens', htokens', hparse'⟩ := parseSource_eq_ok_iff.1 h'
  refine parseSource_eq_ok_iff.2 ⟨_, tokenize_joined htokens htokens', ?_⟩
  obtain ⟨hgenerates, hresolves⟩ := generates_of_parse hparse
  -- with the line feed in front and its lines counted on, the second text is still the same program
  let feed : Token := ⟨.newline, "\n", (1 + newlines tokens).toUInt32, file⟩
  have hlexemes : lexemes tokens' = lexemes (feed :: tokens'.map (down (newlines tokens + 1))) :=
    (lexemes_map_down _ tokens').symm
  have hmoved := parse_of_lexemes_eq hlexemes file file
  rw [hparse'] at hmoved
  obtain ⟨hgenerates', hresolves'⟩ := generates_of_parse hmoved
  exact parse_of_generates (hgenerates.append hgenerates')
    (Stmt.programResolves_append hbound hfunctions hresolves hresolves') file

/-- The bare `x` at the end of the first text is not continued by the second one, and the function
`x` does not clash with the variable. -/
theorem parseSource_joined_bare :
    parseSource ("let x = 1;\nx" ++ "\n" ++ "fn x(): int \x7b return 2; \x7d;") "main" =
      .ok [.binding .mutable "x" (.integer 1), .bare (.variable "x"),
        .function "x" [] .int [.returning (.integer 2)]] := by
  have h : parseSource "let x = 1;\nx" "main" =
      .ok [.binding .mutable "x" (.integer 1), .bare (.variable "x")] := by
    rfl
  have h' : parseSource "fn x(): int \x7b return 2; \x7d;" "main" =
      .ok [.function "x" [] .int [.returning (.integer 2)]] := by
    rfl
  exact parseSource_joined h h' (List.disjoint_nil_right _) (List.disjoint_nil_left _)

end Parse

end Scopewise
