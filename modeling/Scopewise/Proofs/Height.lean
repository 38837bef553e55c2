import Scopewise.Proofs.Language

namespace Scopewise

namespace Expr

mutual

/-- How many nodes there are on the longest way down. -/
def height : Expr → Nat
  | .integer _ | .variable _ => 1
  | .call _ args => heightAll args + 1
  | .unary _ operand => operand.height + 1
  | .binary _ left right => max left.height right.height + 1

def heightAll : List Expr → Nat
  | [] => 0
  | e :: es => max e.height (heightAll es)

end

/-- How many operators are met on the way down the left operands. A level is opened for each right
operand, beside those of the others, so a run opens one level however long it is. -/
def run : Expr → Nat
  | .binary _ left _ => left.run + 1
  | _ => 0

mutual

/-- The longest run of an expression and its parts. -/
def longestRun : Expr → Nat
  | .integer _ | .variable _ => 0
  | .call _ args => longestRunAll args
  | .unary _ operand => operand.longestRun
  | .binary _ left right => max (left.run + 1) (max left.longestRun right.longestRun)

def longestRunAll : List Expr → Nat
  | [] => 0
  | e :: es => max e.longestRun (longestRunAll es)

end

theorem run_le_longestRun (e : Expr) : e.run ≤ e.longestRun := by
  cases e with
  | binary op left right => exact Nat.le_max_left _ _
  | integer | «variable» | call | unary => exact Nat.zero_le _

/-- How high a statement can be that opens so many levels and has no run longer than `k`. A level
has room for a run and for the node that opens the next one. -/
def room (k : Nat) : Nat → Nat
  | 0 => 1
  | n + 1 => n * (k + 1) + 2

theorem room_succ_succ (k n : Nat) : room k (n + 2) = room k (n + 1) + (k + 1) := by
  rw [room, room, Nat.succ_mul, Nat.add_right_comm]

theorem room_strictMono (k : Nat) : StrictMono (room k) := by
  refine strictMono_nat_of_lt_succ fun n => ?_
  cases n with
  | zero => exact Nat.lt_add_of_pos_left (Nat.succ_pos _)
  | succ n =>
    rw [room_succ_succ]
    omega

/-- The height that an expression may have if it opens so many levels and no run is longer than `k`.
One that opens none has no operator; any other has its own run to add. -/
def allowance (k levels : Nat) (e : Expr) : Nat :=
  if levels = 0 then 1 else e.run + room k levels

theorem allowance_le (k levels : Nat) (e : Expr) :
    e.allowance k levels ≤ e.run + room k levels := by
  unfold allowance
  split
  · next h =>
    rw [h]
    exact Nat.le_add_left _ _
  · exact Nat.le_refl _

theorem room_le_allowance (k levels : Nat) (e : Expr) : room k levels ≤ e.allowance k levels := by
  unfold allowance
  split
  · next h => rw [h, room]
  · exact Nat.le_add_left _ _

theorem allowance_mono {k n m : Nat} (e : Expr) (h : n ≤ m) :
    e.allowance k n ≤ e.allowance k m := by
  obtain rfl | hn := Nat.eq_zero_or_pos n
  · exact Nat.le_trans ((room_strictMono k).monotone h) (room_le_allowance k m e)
  · unfold allowance
    rw [if_neg (by omega), if_neg (by omega)]
    exact Nat.add_le_add_left ((room_strictMono k).monotone h) _

/-- An expression fits into a level of its own. -/
theorem height_lt_of_le_allowance {k n : Nat} {e : Expr} (h : e.height ≤ e.allowance k n)
    (hrun : e.longestRun ≤ k) : e.height < room k (n + 1) := by
  have hle := e.run_le_longestRun
  cases n with
  | zero => exact Nat.lt_of_le_of_lt h (room_strictMono k Nat.zero_lt_one)
  | succ n =>
    have hheight := Nat.le_trans h (allowance_le k (n + 1) e)
    rw [room_succ_succ]
    omega

end Expr

namespace Stmt

mutual

/-- How many nodes there are on the longest way down. -/
def height : Stmt → Nat
  | .function _ _ _ body => heightAll body + 1
  | .binding _ _ value | .returning value | .bare value => value.height + 1

def heightAll : List Stmt → Nat
  | [] => 0
  | s :: ss => max s.height (heightAll ss)

end

mutual

/-- The longest run of a statement's expressions. -/
def longestRun : Stmt → Nat
  | .function _ _ _ body => longestRunAll body
  | .binding _ _ value | .returning value | .bare value => value.longestRun

def longestRunAll : List Stmt → Nat
  | [] => 0
  | s :: ss => max s.longestRun (longestRunAll ss)

end

theorem heightAll_le_of_forall {bound : Nat} {ss : List Stmt}
    (h : ∀ s ∈ ss, s.height ≤ bound) : heightAll ss ≤ bound := by
  induction ss with
  | nil => exact Nat.zero_le _
  | cons s ss ih =>
    rw [List.forall_mem_cons] at h
    exact Nat.max_le.2 ⟨h.1, ih h.2⟩

theorem longestRun_le_longestRunAll {s : Stmt} {ss : List Stmt} (h : s ∈ ss) :
    s.longestRun ≤ longestRunAll ss := by
  induction ss with
  | nil => exact absurd h List.not_mem_nil
  | cons s' ss ih =>
    unfold longestRunAll
    obtain rfl | h := List.mem_cons.1 h
    · exact Nat.le_max_left _ _
    · exact Nat.le_trans (ih h) (Nat.le_max_right _ _)

end Stmt

namespace Grammar

variable {α : Type} {token : α → Token} {k : Nat}

mutual

theorem Derives.height_le {level : Level} {us : List α} {p : Phrase α} {n : Nat} {e : Expr} :
    Derives token level us p n → p.tree? token = some e → e.longestRun ≤ k →
      e.height ≤ e.allowance k n
  | .integer _, htree, _ => by
    obtain ⟨value, -, rfl⟩ := Option.map_eq_some_iff.1 htree
    exact Nat.le_refl 1
  | .variable _, htree, _ => by
    obtain rfl := Option.some.inj htree
    exact Nat.le_refl 1
  | .callNil _ _ _, htree, _ => by
    obtain ⟨_, hargs, rfl⟩ := Option.map_eq_some_iff.1 htree
    obtain rfl := Option.some.inj hargs
    exact Nat.le_refl 1
  | .call _ _ hargs, htree, hrun => by
    obtain ⟨_, htrees, rfl⟩ := Option.map_eq_some_iff.1 htree
    exact Nat.le_trans (hargs.heightAll_lt htrees hrun) (Expr.room_le_allowance _ _ _)
  | .group _ he _, htree, hrun =>
    Nat.le_trans (he.height_le htree hrun) (Expr.allowance_mono _ (Nat.le_succ _))
  | .sign _ he, htree, hrun => by
    obtain ⟨operand, hoperand, rfl⟩ := Option.map_eq_some_iff.1 htree
    have hlt := Expr.height_lt_of_le_allowance (he.height_le hoperand hrun) hrun
    exact Nat.le_trans hlt (Expr.room_le_allowance _ _ _)
  | .lift he, htree, hrun => he.height_le htree hrun
  | @Derives.binary _ _ _ op _ _ _ _ _ n m _ hl _ hr, htree, hrun => by
    obtain ⟨left, htreel, right, htreer, rfl⟩ := Phrase.tree?_binary_eq_some_iff.1 htree
    obtain ⟨-, hrunl, hrunr⟩ : left.run + 1 ≤ k ∧ left.longestRun ≤ k ∧ right.longestRun ≤ k := by
      simpa only [Expr.longestRun, Nat.max_le] using hrun
    -- the left operand carries the run on, and the right one has opened a level of its own
    have hleft := Nat.le_trans (hl.height_le htreel hrunl) (Expr.allowance_le k n left)
    have hright := Expr.height_lt_of_le_allowance (hr.height_le htreer hrunr) hrunr
    have hroom := (Expr.room_strictMono k).monotone (Nat.le_max_left n (m + 1))
    have hroom' := (Expr.room_strictMono k).monotone (Nat.le_max_right n (m + 1))
    have htop : (Expr.binary op left right).allowance k (max n (m + 1)) =
        left.run + 1 + Expr.room k (max n (m + 1)) := if_neg (by omega)
    rw [htop, Expr.height]
    omega

theorem Arguments.heightAll_lt {us : List α} {ps : List (Phrase α)} {n : Nat} {es : List Expr} :
    Arguments token us ps n → Phrase.trees? token ps = some es →
      Expr.longestRunAll es ≤ k → Expr.heightAll es < Expr.room k n
  | .last he _, htrees, hrun => by
    obtain ⟨e, htree, _, hnil, rfl⟩ := Phrase.trees?_cons_eq_some_iff.1 htrees
    obtain rfl := Option.some.inj hnil
    simp only [Expr.longestRunAll, Expr.heightAll, Nat.max_zero] at hrun ⊢
    exact Expr.height_lt_of_le_allowance (he.height_le htree hrun) hrun
  | @Arguments.cons _ _ _ _ _ _ n m _ he _ hes, htrees, hrun => by
    obtain ⟨e, he', es, hes', rfl⟩ := Phrase.trees?_cons_eq_some_iff.1 htrees
    obtain ⟨hrune, hrunes⟩ := Nat.max_le.1 hrun
    have hfirst := Expr.height_lt_of_le_allowance (he.height_le he' hrune) hrune
    have hrest := hes.heightAll_lt hes' hrunes
    rw [Expr.heightAll, (Expr.room_strictMono k).monotone.map_max]
    omega

end

mutual

theorem Statement.height_le {us : List α} {c : Clause α} {n : Nat} {s : Stmt} :
    Statement token us c n → c.tree? token = some s → s.longestRun ≤ k → s.height ≤ Expr.room k n
  | @Statement.function _ _ _ _ _ _ _ _ _ _ _ _ _ n _ _ _ _ _ _ hbody _ _, htree, hrun => by
    obtain ⟨_, -, body, htrees, rfl⟩ := Clause.tree?_function_eq_some_iff.1 htree
    have hall : Stmt.heightAll body ≤ Expr.room k n :=
      Stmt.heightAll_le_of_forall fun s hs => hbody.height_le htrees s hs
        (Nat.le_trans (Stmt.longestRun_le_longestRunAll hs) hrun)
    exact Nat.lt_of_le_of_lt hall (Expr.room_strictMono k (Nat.lt_succ_self n))
  | .binding _ _ _ he _, htree, hrun | .returning _ he _, htree, hrun
  | .bare _ _ he, htree, hrun => by
    obtain ⟨value, hvalue, rfl⟩ := Option.map_eq_some_iff.1 htree
    exact Expr.height_lt_of_le_allowance (he.height_le hvalue hrun) hrun

theorem Body.height_le {us : List α} {cs : List (Clause α)} {n : Nat} {ss : List Stmt} :
    Body token us cs n → Clause.trees? token cs = some ss →
      ∀ s ∈ ss, s.longestRun ≤ k → s.height ≤ Expr.room k n
  | .nil, htrees => by
    obtain rfl := Option.some.inj htrees
    exact fun s hs => absurd hs List.not_mem_nil
  | .semicolon _ hcs, htrees => hcs.height_le htrees
  | @Body.cons _ _ _ _ _ _ n m hc hcs, htrees => by
    obtain ⟨t, ht, ts, hts, rfl⟩ := Clause.trees?_cons_eq_some_iff.1 htrees
    intro s hs hrun
    rw [(Expr.room_strictMono k).monotone.map_max]
    obtain rfl | hs := List.mem_cons.1 hs
    · exact Nat.le_trans (hc.height_le ht hrun) (Nat.le_max_left _ _)
    · exact Nat.le_trans (hcs.height_le hts s hs hrun) (Nat.le_max_right _ _)

end

end Grammar

namespace Parse

open Grammar

/-- The bound on nesting bounds the height of an accepted tree, but for its runs of operators: each
level has room for a run and one node more. -/
theorem height_le_of_parse (tokens : List Token) (file : String) (trees : List Stmt)
    (h : parse tokens file = .ok trees) : ∀ s ∈ trees,
      s.height ≤ (Rules.maxNesting - 1) * (s.longestRun + 1) + 2 := by
  obtain ⟨⟨clauses, levels, hbody, hlevels, htrees⟩, -⟩ := generates_of_parse h
  intro s hs
  calc s.height ≤ Expr.room s.longestRun levels := hbody.height_le htrees s hs (Nat.le_refl _)
    _ ≤ Expr.room s.longestRun Rules.maxNesting :=
      (Expr.room_strictMono s.longestRun).monotone hlevels
    _ = (Rules.maxNesting - 1) * (s.longestRun + 1) + 2 := rfl

/-- A sign, a call and two operators on one path: the run of the sum is `2` long. -/
theorem height_le_of_parse_call :
    let tokens : List Token := [⟨.identifier, "echo", 1, "f"⟩, ⟨.openParen, "(", 1, "f"⟩,
      ⟨.dash, "-", 1, "f"⟩, ⟨.integer, "1", 1, "f"⟩, ⟨.plus, "+", 1, "f"⟩,
      ⟨.integer, "2", 1, "f"⟩, ⟨.dash, "-", 1, "f"⟩, ⟨.integer, "3", 1, "f"⟩,
      ⟨.closeParen, ")", 1, "f"⟩]
    let tree : Stmt := .bare (.call "echo" [.binary .subtract
      (.binary .add (.unary .minus (.integer 1)) (.integer 2)) (.integer 3)])
    parse tokens "f" = .ok [tree] ∧ tree.height = 6 ∧ tree.longestRun = 2 ∧
      tree.height ≤ (Rules.maxNesting - 1) * (tree.longestRun + 1) + 2 := by
  intro tokens tree
  have hparse : parse tokens "f" = .ok [tree] := by decide +kernel
  exact ⟨hparse, by decide, by decide,
    height_le_of_parse tokens "f" [tree] hparse tree List.mem_cons_self⟩

/-- The sum of `n + 1` ones. -/
def ones : Nat → List Token
  | 0 => [⟨.integer, "1", 1, "f"⟩]
  | n + 1 => ones n ++ [⟨.plus, "+", 1, "f"⟩, ⟨.integer, "1", 1, "f"⟩]

def onesPhrase : Nat → Phrase Token
  | 0 => .integer ⟨.integer, "1", 1, "f"⟩
  | n + 1 => .binary .add (onesPhrase n) (.integer ⟨.integer, "1", 1, "f"⟩)

def onesTree : Nat → Expr
  | 0 => .integer 1
  | n + 1 => .binary .add (onesTree n) (.integer 1)

theorem kind_ne_newline_of_mem_ones {n : Nat} {t : Token} (h : t ∈ ones n) :
    t.kind ≠ .newline := by
  induction n with
  | zero =>
    obtain rfl := List.mem_singleton.1 h
    decide
  | succ n ih =>
    rw [ones, List.mem_append, List.mem_pair] at h
    obtain h | rfl | rfl := h
    · exact ih h
    · decide
    · decide

theorem derives_ones (n : Nat) : ∃ m ≤ 1, Derives id .sum (ones n) (onesPhrase n) m := by
  induction n with
  | zero => exact ⟨0, Nat.zero_le _, .lift (.lift (.lift (.integer rfl)))⟩
  | succ n ih =>
    obtain ⟨m, hm, hones⟩ := ih
    -- the right operand opens its level beside those of the ones before it, not below them
    exact ⟨max m (0 + 1), by omega, .binary rfl hones rfl (.lift (.lift (.integer rfl)))⟩

theorem tree?_onesPhrase (n : Nat) : (onesPhrase n).tree? id = some (onesTree n) := by
  have hone : (Phrase.integer (⟨.integer, "1", 1, "f"⟩ : Token)).tree? id = some (.integer 1) := by
    decide +kernel
  induction n with
  | zero => exact hone
  | succ n ih => exact Phrase.tree?_binary_eq_some_iff.2 ⟨_, ih, _, hone, rfl⟩

theorem resolves_onesTree (chain : Scope.Chain) (n : Nat) : (onesTree n).resolves chain = true := by
  induction n with
  | zero => rfl
  | succ n ih => simp [onesTree, Expr.resolves, ih]

theorem height_onesTree (n : Nat) : (onesTree n).height = n + 1 := by
  induction n with
  | zero => rfl
  | succ n ih =>
    rw [onesTree, Expr.height, ih, show (Expr.integer 1).height = 1 from rfl]
    omega

/-- The program `const x = 1 + … + 1;` with `n` operators. -/
def sumProgram (n : Nat) : List Token :=
  ⟨.identifier, "const", 1, "f"⟩ :: ⟨.identifier, "x", 1, "f"⟩ :: ⟨.assignment, "=", 1, "f"⟩ ::
    ones n ++ [⟨.semicolon, ";", 1, "f"⟩]

/-- A sum is accepted however long it is. -/
theorem parse_sumProgram (n : Nat) (file : String) :
    parse (sumProgram n) file = .ok [.binding .immutable "x" (onesTree n)] := by
  obtain ⟨m, hm, hones⟩ := derives_ones n
  have hstmt : Statement id (sumProgram n)
      (.binding .immutable ⟨.identifier, "x", 1, "f"⟩ (onesPhrase n)) (m + 1) :=
    .binding (by decide) rfl rfl hones rfl
  have hbody := Body.cons hstmt .nil
  have hfilter : (sumProgram n).filter (·.kind ≠ .newline) = sumProgram n ++ [] := by
    simpa [sumProgram] using fun t => kind_ne_newline_of_mem_ones
  have hlevels : max (m + 1) 0 ≤ Rules.maxNesting := Nat.le_trans (by omega) (by decide : 2 ≤ _)
  have htrees : Clause.trees? id [.binding .immutable ⟨.identifier, "x", 1, "f"⟩ (onesPhrase n)] =
      some [.binding .immutable "x" (onesTree n)] := by
    simp [Clause.trees?, Clause.tree?, tree?_onesPhrase]
  refine parse_of_generates ⟨_, _, hfilter ▸ hbody, hlevels, htrees⟩ ?_ file
  simp [Stmt.programResolves, Stmt.resolvesAll, Stmt.resolves, resolves_onesTree,
    Scope.Chain.hasLocalVariable]

/-- The bound on nesting gives no bound on height: a sum of 514 ones is higher than two nodes for
each level, and nothing else bounds the height of a sum. -/
theorem exists_parse_height_gt :
    (∃ tree, parse (sumProgram 513) "f" = .ok [tree] ∧ 2 * Rules.maxNesting + 2 < tree.height) ∧
      ¬∃ bound, ∀ tokens file trees, parse tokens file = .ok trees →
        ∀ s ∈ trees, s.height ≤ bound := by
  have hheight (n : Nat) : (Stmt.binding .immutable "x" (onesTree n)).height = n + 2 := by
    rw [Stmt.height, height_onesTree]
  refine ⟨⟨_, parse_sumProgram 513 "f", ?_⟩, ?_⟩
  · rw [hheight]
    decide
  · rintro ⟨bound, hbound⟩
    have hle := hbound _ _ _ (parse_sumProgram bound "f") _ List.mem_cons_self
    rw [hheight] at hle
    omega

end Parse

end Scopewise
