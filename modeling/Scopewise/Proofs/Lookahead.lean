import Scopewise.Proofs.Parse.Lockstep

namespace Scopewise.Parse

variable {tokens : List Token} {file : String}

/-- The place of the first token that is not layout among those that are left after `taken`. -/
def ahead? (taken : Nat) (tokens : List Token) : Option Nat :=
  ((tokens.drop taken).findIdx? (·.kind ≠ .newline)).map (taken + ·)

/-- The place of the token that a parse has in front of it when it fails. -/
def stop? (tokens : List Token) (file : String) : Option Nat :=
  match run .standard tokens file with
  | .ok _ _ => none
  | .error _ last => ahead? (tokens.length - last.rest.length) tokens

theorem exists_of_ahead? {taken i : Nat} (h : ahead? taken tokens = some i) :
    ∃ mid x tail, tokens = mid ++ x :: tail ∧ tokens.take (i + 1) = mid ++ [x] ∧
      x.kind ≠ .newline ∧ taken + tail.length < tokens.length := by
  obtain ⟨j, hj, rfl⟩ := Option.map_eq_some_iff.1 h
  obtain ⟨hlt, hkind, -⟩ := List.findIdx?_eq_some_iff_getElem.1 hj
  rw [List.length_drop] at hlt
  rw [List.getElem_drop] at hkind
  have hi : taken + j < tokens.length := by omega
  refine ⟨tokens.take (taken + j), tokens[taken + j], tokens.drop (taken + j + 1), ?_, ?_, ?_, ?_⟩
  · rw [List.getElem_cons_drop, List.take_append_drop]
  · exact List.take_succ_eq_append_getElem hi
  · simpa using hkind
  · rw [List.length_drop]
    omega

section Reads

variable {x : Token} {tail tail' : List Token}

theorem dropWhile_newline_append (hx : x.kind ≠ .newline) (mid : List Token) :
    (mid ++ x :: tail).dropWhile (·.kind = .newline) =
      mid.dropWhile (·.kind = .newline) ++ x :: tail := by
  induction mid with
  | nil => simp [hx]
  | cons t mid ih =>
    by_cases ht : t.kind = .newline
    · simpa [ht] using ih
    · simp [ht]

theorem takeWhile_newline_append (hx : x.kind ≠ .newline) (mid : List Token) :
    (mid ++ x :: tail).takeWhile (·.kind = .newline) = mid.takeWhile (·.kind = .newline) := by
  induction mid with
  | nil => simp [hx]
  | cons t mid ih =>
    by_cases ht : t.kind = .newline
    · simpa [ht] using ih
    · simp [ht]

theorem spot_skipNewlines (hx : x.kind ≠ .newline) {s : State} {mid : List Token}
    {position : Position} (h : s.spot = (mid ++ x :: tail, position)) :
    s.skipNewlines.spot = (mid.dropWhile (·.kind = .newline) ++ x :: tail,
      { position with
        line := position.line + (mid.takeWhile (·.kind = .newline)).length.toUInt32 }) := by
  have hrest : s.rest = mid ++ x :: tail := congrArg Prod.fst h
  have hposition : s.position = position := congrArg Prod.snd h
  subst hposition
  rw [← dropWhile_newline_append hx, ← takeWhile_newline_append hx, ← hrest]
  rfl

theorem head?_pending (hx : x.kind ≠ .newline) {s : State} {mid : List Token}
    {position : Position} (h : s.spot = (mid ++ x :: tail, position)) :
    s.pending.head? = (mid.filter (·.kind ≠ .newline) ++ [x]).head? := by
  have hrest : s.rest = mid ++ x :: tail := congrArg Prod.fst h
  unfold State.pending
  rw [hrest]
  simp [hx, List.head?_append]

/-- Two texts that agree up to a token `x` that is not layout, for as long as it is not taken. -/
def upTo (x : Token) (hx : x.kind ≠ .newline) (tail tail' : List Token) : Coupling where
  name := id
  token := Eq
  place spot spot' := ∃ mid position,
    spot = (mid ++ x :: tail, position) ∧ spot' = (mid ++ x :: tail', position)
  off rest := rest.length ≤ tail.length
  alike := Eq
  name_injective := Function.injective_id
  name_reserved := id_reserved
  exists_token t := ⟨t, rfl⟩
  kind_eq h := by rw [h]
  value_eq h := by rw [h]; exact (ite_self _).symm
  head := by
    rintro s s' ⟨mid, position, h, h'⟩
    rw [head?_pending hx h, head?_pending hx h']
    cases (mid.filter (·.kind ≠ .newline) ++ [x]).head? with
    | none => exact .none
    | some t => exact .some rfl
  skip := by
    rintro s s' ⟨mid, position, h, h'⟩
    exact ⟨_, _, spot_skipNewlines hx h, spot_skipNewlines hx h'⟩
  next := by
    rintro s s' ⟨mid, position, h, h'⟩
    have hskip := spot_skipNewlines hx h
    have hskip' := spot_skipNewlines hx h'
    cases hmid : mid.dropWhile (·.kind = .newline) with
    | nil =>
      rw [hmid] at hskip
      have hrest : s.next.rest = tail := congrArg (List.tail ∘ Prod.fst) hskip
      exact .inl (Nat.le_of_eq (congrArg List.length hrest))
    | cons t mid =>
      rw [hmid] at hskip hskip'
      exact .inr ⟨mid, _, congrArg (Prod.map List.tail id) hskip,
        congrArg (Prod.map List.tail id) hskip'⟩
  off_of_suffix hsuffix hoff := Nat.le_trans hsuffix.length_le hoff
  here := by
    rintro s s' fault ⟨mid, position, h, h'⟩
    have hposition : s.position = position := congrArg Prod.snd h
    have hposition' : s'.position = position := congrArg Prod.snd h'
    rw [hposition, hposition']
  there fault h := by rw [h]

end Reads

/-- Nothing behind the token that a failed parse has in front of it can change the failure. -/
theorem parse_take_append {d : Diagnostic} {i : Nat} (h : parse tokens file = .error d)
    (hi : stop? tokens file = some i) (more : List Token) :
    parse (tokens.take (i + 1) ++ more) file = .error d := by
  unfold stop? at hi
  split at hi
  · cases hi
  · next failure last hrun =>
    obtain rfl : failure.diagnostic = d := by
      rw [parse, hrun] at h
      exact Except.error.inj h
    obtain ⟨mid, x, tail, htokens, htake, hx, hlength⟩ := exists_of_ahead? hi
    have hplace : (upTo x hx tail more).place (tokens, ⟨1, file⟩)
        (tokens.take (i + 1) ++ more, ⟨1, file⟩) :=
      ⟨mid, _, by rw [htokens], by rw [htake, List.append_assoc]; rfl⟩
    have hparse := (upTo x hx tail more).parse_together file file hplace
    rw [hrun] at hparse
    obtain hoff | ⟨_, hparse, rfl⟩ := hparse
    · have hoff : last.rest.length ≤ tail.length := hoff
      omega
    · exact hparse

/-- A number where a name should stand, on the line after `let`: no tokens behind it can help. -/
theorem parse_take_append_let :
    let tokens : List Token := [⟨.identifier, "let", 1, "f"⟩, ⟨.newline, "\n", 1, "f"⟩,
      ⟨.integer, "1", 2, "f"⟩, ⟨.identifier, "x", 2, "f"⟩]
    stop? tokens "f" = some 2 ∧
      parse (tokens.take 3 ++ [⟨.assignment, "=", 7, "g"⟩]) "f" =
        .error ⟨.expectedToken "variable name" "1", 2, "f"⟩ := by
  intro tokens
  have hstop : stop? tokens "f" = some 2 := by rfl
  have hparse : parse tokens "f" = .error ⟨.expectedToken "variable name" "1", 2, "f"⟩ := by rfl
  exact ⟨hstop, parse_take_append hparse hstop _⟩

end Scopewise.Parse
