import Scopewise.Proofs.Parse.ViableStmt

namespace Scopewise

namespace Grammar

/-- The tokens that are not layout derive the program within the bound on nesting. -/
def Generates (tokens : List Token) (program : List Stmt) : Prop :=
  ∃ clauses levels, Body id (tokens.filter (·.kind ≠ .newline)) clauses levels ∧
    levels ≤ Parse.Rules.maxNesting ∧ Clause.trees? id clauses = some program

/-- The tokens that are not layout, each with its index among all tokens. -/
def numbered (tokens : List Token) : List (Token × Nat) :=
  tokens.zipIdx.filter (·.1.kind ≠ .newline)

/-- What is wrong with a program in the scope of the built-in functions. -/
def programViolations (clauses : List (Clause (Token × Nat))) : List (Violation (Token × Nat)) :=
  Clause.violationsAll Prod.fst [{ functions := ["echo"] }] clauses

theorem map_fst_numbered (tokens : List Token) :
    (numbered tokens).map Prod.fst = tokens.filter (·.kind ≠ .newline) := by
  rw [numbered, show (fun u : Token × Nat => decide (u.1.kind ≠ .newline)) =
    (fun t : Token => decide (t.kind ≠ .newline)) ∘ Prod.fst from rfl, ← List.filter_map,
    List.zipIdx_map_fst]

/-- The indexes go up. -/
theorem pairwise_numbered (tokens : List Token) :
    (numbered tokens).Pairwise fun u v => u.2 < v.2 := by
  apply List.Pairwise.filter
  have hrange : (tokens.zipIdx.map Prod.snd).Pairwise (· < ·) := by
    rw [List.zipIdx_map_snd]
    exact List.pairwise_lt_range'
  exact List.pairwise_map.1 hrange

theorem getElem?_of_mem_numbered {tokens : List Token} {u : Token × Nat}
    (h : u ∈ numbered tokens) : tokens[u.2]? = some u.1 := by
  have hmem : u ∈ tokens.zipIdx := (List.mem_filter.1 h).1
  exact List.mem_zipIdx_iff_getElem?.1 hmem

end Grammar

namespace Parse

open Grammar

variable {tokens : List Token} {file : String}

/-- How a parse ends is how its program ends. -/
theorem parse_of_ends {good : List Stmt → State → Prop} {bad : Failure → State → Prop}
    (h : Ends (program .standard tokens.length) { rest := tokens, file } good bad) :
    match parse tokens file with
    | .ok trees => ∃ t, good trees t
    | .error e => ∃ failure t, failure.diagnostic = e ∧ bad failure t := by
  unfold Ends at h
  change match outcome ((program .standard tokens.length).run { rest := tokens, file }) with
    | .ok trees => ∃ t, good trees t
    | .error e => ∃ failure t, failure.diagnostic = e ∧ bad failure t
  cases hrun : (program .standard tokens.length).run { rest := tokens, file } with
  | ok trees t =>
    rw [hrun] at h
    exact ⟨t, h⟩
  | error failure t =>
    rw [hrun] at h
    exact ⟨failure, t, rfl, h⟩

/-- On tokens that derive a body, a parse gives the body's trees or its first violation. -/
theorem parse_of_body {α : Type} {token : α → Token} {us : List α} {clauses : List (Clause α)}
    {levels : Nat} (h : Body token us clauses levels) (hlevels : levels ≤ Rules.maxNesting)
    {tokens : List Token} (hus : us.map token = tokens.filter (·.kind ≠ .newline))
    (file : String) :
    let found := Clause.violationsAll token [{ functions := ["echo"] }] clauses
    match parse tokens file with
    | .ok trees => found = [] ∧ Clause.trees? token clauses = some trees
    | .error e => found.head?.map (·.diagnostic token) = some e := by
  have hends := parse_of_ends (h.answers_program hlevels hus file)
  cases hparse : parse tokens file with
  | ok trees =>
    rw [hparse] at hends
    obtain ⟨_, hgood⟩ := hends
    exact hgood
  | error e =>
    rw [hparse] at hends
    obtain ⟨_, _, rfl, hbad⟩ := hends
    exact hbad

theorem generates_of_parse {trees : List Stmt} (h : parse tokens file = .ok trees) :
    Generates tokens trees ∧ Stmt.programResolves trees := by
  have hyields := parse_of_ends (yields_program tokens file)
  rw [h] at hyields
  obtain ⟨_, clauses, levels, hbody, hlevels⟩ := hyields
  -- the parse answers for the derivation that it has found itself
  have hcases := parse_of_body hbody hlevels (List.map_id _) file
  rw [h] at hcases
  obtain ⟨hnil, htrees⟩ := hcases
  obtain ⟨trees', htrees', hresolves⟩ := (Clause.violationsAll_eq_nil_iff _ _).1 hnil
  obtain rfl : trees' = trees := Option.some.inj (htrees'.symm.trans htrees)
  exact ⟨⟨clauses, levels, hbody, hlevels, htrees⟩, hresolves⟩

theorem parse_of_generates {trees : List Stmt} (h : Generates tokens trees)
    (hresolves : Stmt.programResolves trees) (file : String) : parse tokens file = .ok trees := by
  obtain ⟨clauses, levels, hbody, hlevels, htrees⟩ := h
  have hcases := parse_of_body hbody hlevels (List.map_id _) file
  have hnil : Clause.violationsAll id [{ functions := ["echo"] }] clauses = [] :=
    (Clause.violationsAll_eq_nil_iff _ _).2 ⟨trees, htrees, hresolves⟩
  cases hparse : parse tokens file with
  | ok trees' =>
    rw [hparse] at hcases
    rw [Option.some.inj (hcases.2.symm.trans htrees)]
  | error e =>
    rw [hparse, hnil] at hcases
    simp at hcases

/-- The language that is accepted, and the tree that is given for each text of it. -/
theorem parse_eq_ok_iff (tokens : List Token) (file : String) (trees : List Stmt) :
    parse tokens file = .ok trees ↔
      Generates tokens trees ∧ Stmt.programResolves trees = true :=
  ⟨generates_of_parse, fun h => parse_of_generates h.1 h.2 file⟩

/-- A violation comes first in the walk exactly if its token comes first. -/
theorem head?_eq_some_iff {clauses : List (Clause (Token × Nat))} {levels : Nat}
    (h : Body Prod.fst (numbered tokens) clauses levels) {v : Violation (Token × Nat)} :
    (programViolations clauses).head? = some v ↔
      v ∈ programViolations clauses ∧ ∀ w ∈ programViolations clauses, v.spot.2 ≤ w.spot.2 := by
  -- the walk follows the text, so the indexes of what it finds go up
  have hsublist := (h.ordered [{ functions := ["echo"] }]).1
  have hpairwise := (pairwise_numbered tokens).sublist hsublist
  change ((programViolations clauses).map (·.spot)).Pairwise _ at hpairwise
  rw [List.pairwise_map] at hpairwise
  cases hfound : programViolations clauses with
  | nil => simp
  | cons first rest =>
    rw [hfound, List.pairwise_cons] at hpairwise
    rw [List.head?_cons, Option.some.injEq]
    constructor
    · rintro rfl
      refine ⟨List.mem_cons_self, fun w hw => ?_⟩
      obtain rfl | hw := List.mem_cons.1 hw
      · exact Nat.le_refl _
      · exact Nat.le_of_lt (hpairwise.1 w hw)
    · rintro ⟨hv, hfirst⟩
      obtain rfl | hv := List.mem_cons.1 hv
      · rfl
      · have hlt := hpairwise.1 v hv
        have hle := hfirst first List.mem_cons_self
        omega

/-- The checks made while parsing are a pass of their own over what was written, and the violation
that is reported is the one whose token comes first. -/
theorem parse_eq_error_iff (tokens : List Token) (file : String)
    (clauses : List (Clause (Token × Nat))) (levels : Nat)
    (hbody : Body Prod.fst (numbered tokens) clauses levels)
    (hlevels : levels ≤ Rules.maxNesting) :
    ((∃ e, parse tokens file = .error e) ↔ programViolations clauses ≠ []) ∧
      ∀ e, parse tokens file = .error e ↔
        ∃ v ∈ programViolations clauses, (∀ w ∈ programViolations clauses, v.spot.2 ≤ w.spot.2) ∧
          tokens[v.spot.2]? = some v.spot.1 ∧ v.fault.text? = some v.spot.1.value ∧
          e = ⟨v.fault, v.spot.1.position⟩ := by
  have hcases := parse_of_body hbody hlevels (map_fst_numbered tokens) file
  change match parse tokens file with
    | .ok trees => programViolations clauses = [] ∧ Clause.trees? Prod.fst clauses = some trees
    | .error e => (programViolations clauses).head?.map (·.diagnostic Prod.fst) = some e at hcases
  have hordered := hbody.ordered [{ functions := ["echo"] }]
  have hspot {v : Violation (Token × Nat)} (hv : v ∈ programViolations clauses) :
      tokens[v.spot.2]? = some v.spot.1 ∧ v.fault.text? = some v.spot.1.value :=
    ⟨getElem?_of_mem_numbered (hordered.1.subset (List.mem_map_of_mem hv)), hordered.2 v hv⟩
  cases hparse : parse tokens file with
  | ok trees =>
    rw [hparse] at hcases
    simp [hcases.1]
  | error e =>
    rw [hparse] at hcases
    obtain ⟨v, hv, rfl⟩ := Option.map_eq_some_iff.1 hcases
    obtain ⟨hmem, hfirst⟩ := (head?_eq_some_iff hbody).1 hv
    refine ⟨by simpa using List.ne_nil_of_mem hmem, fun e' => ⟨?_, ?_⟩⟩
    · intro he
      obtain rfl := Except.error.inj he
      exact ⟨v, hmem, hfirst, (hspot hmem).1, (hspot hmem).2, rfl⟩
    · rintro ⟨w, hw, hfirst', -, -, rfl⟩
      have hhead := (head?_eq_some_iff hbody).2 ⟨hw, hfirst'⟩
      rw [Option.some.inj (hv.symm.trans hhead)]
      rfl

/-- Two names that are not declared, on two lines: the first is reported. -/
theorem parse_eq_error_undeclared :
    parse [⟨.identifier, "x", 1, "f"⟩, ⟨.newline, "\n", 1, "f"⟩, ⟨.identifier, "y", 2, "f"⟩] "f" =
      .error ⟨.variableUndeclared "x", 1, "f"⟩ := by
  let x : Token × Nat := (⟨.identifier, "x", 1, "f"⟩, 0)
  let newline : Token := ⟨.newline, "\n", 1, "f"⟩
  let y : Token × Nat := (⟨.identifier, "y", 2, "f"⟩, 2)
  have hx : Derives Prod.fst .sum [x] (.variable x) 0 := .lift (.lift (.lift (.variable rfl)))
  have hy : Derives Prod.fst .sum [y] (.variable y) 0 := .lift (.lift (.lift (.variable rfl)))
  have hbody : Body Prod.fst [x, y] [.bare (.variable x), .bare (.variable y)] 1 :=
    .cons (.bare rfl (by decide) hx) (.cons (.bare rfl (by decide) hy) .nil)
  have hfound : programViolations [.bare (.variable x), .bare (.variable y)] =
      [⟨x, .variableUndeclared "x"⟩, ⟨y, .variableUndeclared "y"⟩] := by
    rfl
  have hnumbered : numbered [x.1, newline, y.1] = [x, y] := rfl
  rw [← hnumbered] at hbody
  apply ((parse_eq_error_iff [x.1, newline, y.1] "f" _ 1 hbody (by decide)).2 _).2
  rw [hfound]
  exact ⟨_, List.mem_cons_self, by simp [x, y], rfl, rfl, rfl⟩

end Parse

end Scopewise
