import Mathlib.Logic.Equiv.Basic
import Scopewise.Proofs.Parse.Lockstep
import Scopewise.Proofs.Violation

namespace Scopewise

variable {name : String → String}

/-- An identifier under its new name; other tokens stay. -/
def Token.rename (name : String → String) (t : Token) : Token :=
  if t.kind = .identifier then { t with value := name t.value } else t

namespace Token

theorem kind_rename (t : Token) : (t.rename name).kind = t.kind := by
  unfold rename
  split <;> rfl

theorem value_rename (t : Token) :
    (t.rename name).value = if t.kind = .identifier then name t.value else t.value := by
  unfold rename
  split <;> rfl

theorem position_rename (t : Token) : (t.rename name).position = t.position := by
  unfold rename
  split <;> rfl

end Token

namespace Expr

mutual

theorem rename_rename (f g : String → String) : (e : Expr) →
    (e.rename f).rename g = e.rename (g ∘ f)
  | .integer _ | .variable _ => rfl
  | .call _ args => by rw [rename, rename, rename, renameAll_renameAll f g args]; rfl
  | .unary _ operand => by rw [rename, rename, rename, rename_rename f g operand]
  | .binary _ left right => by
    rw [rename, rename, rename, rename_rename f g left, rename_rename f g right]

theorem renameAll_renameAll (f g : String → String) : (es : List Expr) →
    renameAll g (renameAll f es) = renameAll (g ∘ f) es
  | [] => rfl
  | e :: es => by
    rw [renameAll, renameAll, renameAll, rename_rename f g e, renameAll_renameAll f g es]

end

end Expr

namespace Stmt

mutual

theorem rename_rename (f g : String → String) : (s : Stmt) →
    (s.rename f).rename g = s.rename (g ∘ f)
  | .function _ params _ body => by
    rw [rename, rename, rename, renameAll_renameAll f g body, List.map_map]
    rfl
  | .binding _ _ value => by rw [rename, rename, rename, value.rename_rename f g]; rfl
  | .returning value => by rw [rename, rename, rename, value.rename_rename f g]
  | .bare value => by rw [rename, rename, rename, value.rename_rename f g]

theorem renameAll_renameAll (f g : String → String) : (ss : List Stmt) →
    renameAll g (renameAll f ss) = renameAll (g ∘ f) ss
  | [] => rfl
  | s :: ss => by
    rw [renameAll, renameAll, renameAll, rename_rename f g s, renameAll_renameAll f g ss]

end

/-- A renaming that can be undone on names can be undone on trees. -/
theorem renameAll_injective (hname : name.Injective) : (renameAll name).Injective := by
  obtain ⟨back, hback⟩ := hname.hasLeftInverse
  apply Function.LeftInverse.injective (g := renameAll back)
  intro trees
  rw [renameAll_renameAll, hback.comp_eq_id, renameAll_id]

end Stmt

namespace Fault

theorem withText_withText (text text' : String) (fault : Fault) :
    (fault.withText text).withText text' = fault.withText text' := by
  cases fault <;> rfl

/-- A fault that has no text is as it was. -/
theorem exists_withText_eq (fault : Fault) : ∃ text, fault = fault.withText text :=
  ⟨fault.text?.getD "", by cases fault <;> rfl⟩

end Fault

namespace Parse

open Token

theorem pending_map_rename {s s' : State} (h : s'.rest = s.rest.map (Token.rename name)) :
    s'.pending = s.pending.map (Token.rename name) := by
  unfold State.pending
  rw [h, List.filter_map]
  simp only [Function.comp_def, kind_rename]

theorem spot_skipNewlines_rename {s s' : State}
    (h : s'.spot = (s.rest.map (Token.rename name), s.position)) :
    s'.skipNewlines.spot =
      (s.skipNewlines.rest.map (Token.rename name), s.skipNewlines.position) := by
  have hrest : s'.rest = s.rest.map (Token.rename name) := congrArg Prod.fst h
  have hline : s'.line = s.line := congrArg (·.2.line) h
  have hfile : s'.file = s.file := congrArg (·.2.file) h
  simp only [State.spot, State.skipNewlines, State.position, hrest, hline, hfile,
    List.dropWhile_map, List.takeWhile_map, List.length_map, Function.comp_def, kind_rename]

/-- The same text under other names, each token in its place. -/
def renamed (name : String → String) (hinjective : name.Injective)
    (hreserved : ∀ word ∈ reserved, name word = word) : Coupling where
  name := name
  token t t' := t' = t.rename name
  place spot spot' := spot' = (spot.1.map (Token.rename name), spot.2)
  off _ := False
  alike d d' := d'.position = d.position ∧ ∃ text, d'.fault = d.fault.withText text
  name_injective := hinjective
  name_reserved := hreserved
  exists_token t := ⟨_, rfl⟩
  kind_eq h := by rw [h, kind_rename]
  value_eq h := by rw [h, value_rename]
  head := by
    intro s s' h
    rw [pending_map_rename (congrArg Prod.fst h), List.head?_map]
    cases s.pending.head? with
    | none => exact .none
    | some t => exact .some rfl
  skip := spot_skipNewlines_rename
  next := by
    intro s s' h
    refine .inr ?_
    have hnext : s'.next.spot =
        ((s.skipNewlines.rest.map (Token.rename name)).tail, s.skipNewlines.position) :=
      congrArg (Prod.map List.tail id) (spot_skipNewlines_rename h)
    rw [← List.map_tail] at hnext
    exact hnext
  off_of_suffix _ := id
  here := by
    intro s s' fault h
    exact ⟨congrArg Prod.snd h, fault.exists_withText_eq⟩
  there := by
    rintro t _ fault rfl
    exact ⟨position_rename t, _, (Fault.withText_withText _ _ fault).symm⟩

theorem parse_rename {name : String → String} (hinjective : name.Injective)
    (hreserved : ∀ word ∈ reserved, name word = word) (tokens : List Token) (file : String) :
    match parse tokens file with
    | .ok trees => parse (tokens.map (Token.rename name)) file = .ok (Stmt.renameAll name trees)
    | .error d => ∃ d', parse (tokens.map (Token.rename name)) file = .error d' ∧
      d'.position = d.position ∧ ∃ text, d'.fault = d.fault.withText text := by
  have hplace : (renamed name hinjective hreserved).place (tokens, ⟨1, file⟩)
      (tokens.map (Token.rename name), ⟨1, file⟩) := rfl
  have htogether := (renamed name hinjective hreserved).parse_together file file hplace
  rw [parse]
  cases hrun : run .standard tokens file with
  | ok trees last =>
    rw [hrun] at htogether
    exact htogether.resolve_left id
  | error failure last =>
    rw [hrun] at htogether
    exact htogether.resolve_left id

/-- Renaming all identifiers alike, with different names for different ones, renames the trees and
changes neither whether a parse fails, nor where, nor with what kind of fault. -/
theorem parse_rename_iff {name : String → String} (hinjective : name.Injective)
    (hreserved : ∀ word ∈ reserved, name word = word) (tokens : List Token) (file : String) :
    (∀ trees, parse tokens file = .ok trees ↔
      parse (tokens.map (Token.rename name)) file = .ok (Stmt.renameAll name trees)) ∧
    ((∃ d, parse tokens file = .error d) ↔
      ∃ d, parse (tokens.map (Token.rename name)) file = .error d) ∧
    ∀ d d', parse tokens file = .error d →
      parse (tokens.map (Token.rename name)) file = .error d' →
      d'.position = d.position ∧ ∃ text, d'.fault = d.fault.withText text := by
  have hrename := parse_rename hinjective hreserved tokens file
  cases hparse : parse tokens file with
  | ok trees =>
    rw [hparse] at hrename
    rw [hrename]
    refine ⟨fun trees' => ?_, by simp, by simp⟩
    rw [Except.ok.injEq, Except.ok.injEq, (Stmt.renameAll_injective hinjective).eq_iff]
  | error d =>
    rw [hparse] at hrename
    obtain ⟨d', hparse', hplace, htext⟩ := hrename
    rw [hparse']
    refine ⟨by simp, by simp, ?_⟩
    rintro _ _ ⟨rfl⟩ ⟨rfl⟩
    exact ⟨hplace, htext⟩

/-- With `x` and `y` exchanged, the name that is not declared is reported under its new name. -/
theorem parse_rename_iff_swap :
    let tokens : List Token := [⟨.identifier, "let", 1, "f"⟩, ⟨.identifier, "x", 1, "f"⟩,
      ⟨.assignment, "=", 1, "f"⟩, ⟨.identifier, "y", 2, "f"⟩, ⟨.semicolon, ";", 2, "f"⟩]
    parse tokens "f" = .error ⟨.variableUndeclared "y", 2, "f"⟩ ∧
      parse (tokens.map (Token.rename (Equiv.swap "x" "y"))) "f" =
        .error ⟨.variableUndeclared "x", 2, "f"⟩ ∧
      ∃ text, Fault.variableUndeclared "x" = (Fault.variableUndeclared "y").withText text := by
  intro tokens
  have hreserved : ∀ word ∈ reserved, Equiv.swap "x" "y" word = word := by decide
  have hrename := parse_rename_iff (Equiv.swap "x" "y").injective hreserved tokens "f"
  have hold : parse tokens "f" = .error ⟨.variableUndeclared "y", 2, "f"⟩ := by decide +kernel
  have hnew : parse (tokens.map (Token.rename (Equiv.swap "x" "y"))) "f" =
      .error ⟨.variableUndeclared "x", 2, "f"⟩ := by
    decide +kernel
  exact ⟨hold, hnew, (hrename.2.2 _ _ hold hnew).2⟩

end Parse

end Scopewise
