import Mathlib.Data.List.TakeWhile
import Scopewise.Parse.Program

namespace Scopewise.Parse

namespace State

/-- The tokens ahead that are not layout. -/
def pending (state : State) : List Token :=
  state.rest.filter (·.kind ≠ .newline)

/-- The state behind the next token that is not layout. -/
def next (state : State) : State :=
  { state.skipNewlines with rest := state.skipNewlines.rest.tail }

@[simp]
theorem pending_descend (s : State) : s.descend.pending = s.pending := rfl

private theorem filter_dropWhile_not (p : Token → Bool) (ts : List Token) :
    (ts.dropWhile p).filter (!p ·) = ts.filter (!p ·) := by
  induction ts with
  | nil => rfl
  | cons t ts ih =>
    by_cases h : p t
    · simp [h, ih]
    · simp [h]

private theorem dropWhile_eq_cons (p : Token → Bool) {t : Token} {ts us : List Token}
    (h : ts.filter (!p ·) = t :: us) :
    ∃ rest, ts.dropWhile p = t :: rest ∧ rest.filter (!p ·) = us := by
  induction ts with
  | nil => simp at h
  | cons head ts ih =>
    by_cases hp : p head
    · rw [List.filter_cons_of_neg (by simp [hp])] at h
      obtain ⟨rest, hd, hu⟩ := ih h
      exact ⟨rest, by simpa [hp] using hd, hu⟩
    · rw [List.filter_cons_of_pos (by simp [hp])] at h
      obtain ⟨rfl, hu⟩ := List.cons.inj h
      exact ⟨ts, by simp [hp], hu⟩

private theorem pending_eq (s : State) :
    s.pending = s.rest.filter fun t => !decide (t.kind = .newline) := by
  simp [pending]

@[simp]
theorem pending_skipNewlines (s : State) : s.skipNewlines.pending = s.pending := by
  rw [pending_eq, pending_eq]
  exact filter_dropWhile_not _ _

/-- Behind the newlines stands the first token that is not layout. -/
theorem rest_skipNewlines_of_pending {s : State} {t : Token} {us : List Token}
    (h : s.pending = t :: us) :
    ∃ rest, s.skipNewlines.rest = t :: rest ∧ s.next.pending = us := by
  rw [pending_eq] at h
  obtain ⟨rest, hd, hu⟩ := dropWhile_eq_cons _ h
  refine ⟨rest, hd, ?_⟩
  rw [pending_eq]
  change List.filter _ (List.tail (s.rest.dropWhile _)) = us
  rw [hd]
  exact hu

theorem rest_skipNewlines_of_pending_nil {s : State} (h : s.pending = []) :
    s.skipNewlines.rest = [] := by
  have hall : ∀ t ∈ s.rest, t.kind = .newline := by
    simpa [pending, List.filter_eq_nil_iff] using h
  exact List.dropWhile_eq_nil_iff.2 fun t ht => by simpa using hall t ht

@[simp]
theorem head?_skipNewlines (s : State) : s.skipNewlines.rest.head? = s.pending.head? := by
  cases h : s.pending with
  | nil => rw [rest_skipNewlines_of_pending_nil h]
  | cons t us =>
    obtain ⟨rest, hrest, -⟩ := rest_skipNewlines_of_pending h
    rw [hrest]
    rfl

@[simp]
theorem pending_next (s : State) : s.next.pending = s.pending.tail := by
  cases h : s.pending with
  | nil =>
    have hr := rest_skipNewlines_of_pending_nil h
    simp [next, hr, pending]
  | cons t us =>
    obtain ⟨rest, -, hu⟩ := rest_skipNewlines_of_pending h
    simpa using hu

@[simp]
theorem skipNewlines_skipNewlines (s : State) : s.skipNewlines.skipNewlines = s.skipNewlines := by
  have hdrop : s.skipNewlines.rest.dropWhile (·.kind = .newline) = s.skipNewlines.rest := by
    cases h : s.pending with
    | nil => rw [rest_skipNewlines_of_pending_nil h]; rfl
    | cons t us =>
      obtain ⟨rest, hrest, -⟩ := rest_skipNewlines_of_pending h
      have ht : t ∈ s.pending := by rw [h]; exact List.mem_cons_self
      rw [hrest, List.dropWhile_cons_of_neg]
      simpa using (List.mem_filter.1 ht).2
  have htake : s.skipNewlines.rest.takeWhile (·.kind = .newline) = [] := by
    have h := List.takeWhile_append_dropWhile (p := fun t : Token => decide (t.kind = .newline))
      (l := s.skipNewlines.rest)
    rw [hdrop] at h
    simpa using h
  rw [skipNewlines, hdrop, htake]
  change { s.skipNewlines with line := s.skipNewlines.line + 0 } = s.skipNewlines
  rw [UInt32.add_zero]

@[simp]
theorem next_skipNewlines (s : State) : s.skipNewlines.next = s.next := by
  unfold next
  rw [skipNewlines_skipNewlines]

theorem skipNewlines_suffix (s : State) : s.skipNewlines.rest <:+ s.rest :=
  List.dropWhile_suffix _

theorem next_suffix (s : State) : s.next.rest <:+ s.rest :=
  (List.tail_suffix _).trans s.skipNewlines_suffix

theorem length_rest_next_lt {s : State} {t : Token} {us : List Token} (h : s.pending = t :: us) :
    s.next.rest.length < s.rest.length := by
  obtain ⟨rest, hrest, -⟩ := rest_skipNewlines_of_pending h
  have hnext : s.next.rest = rest := congrArg List.tail hrest
  have hle := s.skipNewlines_suffix.length_le
  rw [hrest, List.length_cons] at hle
  rw [hnext]
  omega

end State

variable {α β : Type} {s : State} {good : α → State → Prop} {bad : Failure → State → Prop}

/-- From `s`, `p` succeeds with a value and a state in `good` or fails with a failure and a state in
`bad`. -/
def Ends (p : Parser α) (s : State) (good : α → State → Prop) (bad : Failure → State → Prop) :
    Prop :=
  match p.run s with
  | .ok a t => good a t
  | .error e t => bad e t

theorem Ends.mono {p : Parser α} {good' : α → State → Prop} {bad' : Failure → State → Prop}
    (h : Ends p s good bad) (hgood : ∀ a t, good a t → good' a t)
    (hbad : ∀ e t, bad e t → bad' e t) : Ends p s good' bad' := by
  unfold Ends at h ⊢
  split <;> simp_all

theorem Ends.and {p : Parser α} {good' : α → State → Prop} {bad' : Failure → State → Prop}
    (h : Ends p s good bad) (h' : Ends p s good' bad') :
    Ends p s (fun a t => good a t ∧ good' a t) fun e t => bad e t ∧ bad' e t := by
  unfold Ends at h h' ⊢
  split <;> simp_all

theorem Ends.exists_ok {p : Parser α} (h : Ends p s good fun _ _ => False) :
    ∃ a t, p.run s = .ok a t ∧ good a t := by
  unfold Ends at h
  split at h
  · next a t hrun => exact ⟨a, t, hrun, h⟩
  · exact h.elim

theorem ends_congr {p q : Parser α} (h : p.run s = q.run s) :
    Ends p s good bad ↔ Ends q s good bad := by
  unfold Ends
  rw [h]

/-- Parsers that end alike, whatever is said of their ends, give the same result. -/
theorem run_eq_of_ends {p q : Parser α} (h : ∀ good bad, Ends p s good bad ↔ Ends q s good bad) :
    p.run s = q.run s := by
  have hp : Ends p s (q.run s = .ok · ·) (q.run s = .error · ·) := by
    apply (h _ _).2
    unfold Ends
    split <;> assumption
  unfold Ends at hp
  split at hp
  · next hrun => rw [hrun, hp]
  · next hrun => rw [hrun, hp]

@[simp]
theorem ends_bind {p : Parser α} {f : α → Parser β} {good : β → State → Prop} :
    Ends (p >>= f) s good bad ↔ Ends p s (fun a t => Ends (f a) t good bad) bad := by
  unfold Ends
  rw [EStateM.run_bind]
  cases p.run s <;> rfl

theorem ends_bind_of_run {p : Parser α} {f : α → Parser β} {good : β → State → Prop} {a : α}
    {t : State} (h : p.run s = .ok a t) :
    Ends (p >>= f) s good bad ↔ Ends (f a) t good bad := by
  unfold Ends
  rw [EStateM.run_bind, h]

/-- Two parsers that begin alike run alike if they go on alike from wherever the first part ends. -/
theorem Ends.run_bind {p q : Parser α} {f g : α → Parser β} (h : Ends p s good bad)
    (hpq : p.run s = q.run s) (hfg : ∀ a t, good a t → (f a).run t = (g a).run t) :
    (p >>= f).run s = (q >>= g).run s := by
  rw [EStateM.run_bind, EStateM.run_bind, ← hpq]
  unfold Ends at h
  split at h
  · next a t hrun =>
    rw [hrun]
    exact hfg a t h
  · next e t hrun => rw [hrun]

theorem run_bind_congr {p q : Parser α} (h : p.run s = q.run s) (f : α → Parser β) :
    (p >>= f).run s = (q >>= f).run s := by
  rw [EStateM.run_bind, EStateM.run_bind, h]

@[simp]
theorem ends_pure {a : α} : Ends (pure a) s good bad ↔ good a s :=
  Iff.rfl

@[simp]
theorem ends_get {good : State → State → Prop} : Ends get s good bad ↔ good s s :=
  Iff.rfl

@[simp]
theorem ends_modify {f : State → State} {good : Unit → State → Prop} :
    Ends (modify f) s good bad ↔ good () (f s) :=
  Iff.rfl

@[simp]
theorem ends_map {p : Parser α} {f : α → β} {good : β → State → Prop} :
    Ends (f <$> p) s good bad ↔ Ends p s (fun a => good (f a)) bad := by
  rw [← bind_pure_comp, ends_bind]
  exact Iff.rfl

@[simp]
theorem ends_discard {p : Parser α} {good : Unit → State → Prop} :
    Ends (discard p) s good bad ↔ Ends p s (fun _ => good ()) bad := by
  change Ends ((fun _ => ()) <$> p) s good bad ↔ _
  rw [ends_map]

theorem discard_bind (p : Parser α) (f : Unit → Parser β) :
    (discard p >>= f) = p >>= fun _ => f () :=
  bind_map_left _ _ _

@[simp]
theorem ends_failAt {fault : Fault} {position : Position} :
    Ends (failAt fault position) s good bad ↔ bad ⟨⟨fault, position⟩, s.depth⟩ s :=
  Iff.rfl

@[simp]
theorem ends_failHere {fault : Fault} :
    Ends (failHere fault) s good bad ↔ bad ⟨⟨fault, s.position⟩, s.depth⟩ s :=
  Iff.rfl

@[simp]
theorem ends_peek {good : Option Token → State → Prop} :
    Ends peek s good bad ↔ good s.pending.head? s.skipNewlines := by
  rw [← State.head?_skipNewlines]
  exact Iff.rfl

@[simp]
theorem ends_peekKind {good : Option Token.Kind → State → Prop} :
    Ends peekKind s good bad ↔ good (s.pending.head?.map (·.kind)) s.skipNewlines := by
  simp [peekKind]

/-- A move that takes the next token needs one to be there. -/
@[simp]
theorem ends_advance {good : Token → State → Prop} :
    Ends advance s good bad ↔ match s.pending with
      | [] => bad ⟨⟨.unexpectedEnd "more input", s.skipNewlines.position⟩, s.depth⟩ s.skipNewlines
      | t :: _ => good t s.next := by
  unfold advance
  cases h : s.pending with
  | nil =>
    simp only [ends_bind, ends_peek, h, List.head?_nil, ends_failHere]
    exact Iff.rfl
  | cons t us =>
    simp only [ends_bind, ends_peek, h, List.head?_cons, ends_modify, ends_pure]
    exact Iff.rfl

@[simp]
theorem ends_unexpected {expected : String} :
    Ends (unexpected expected) s good bad ↔ match s.pending with
      | [] => bad ⟨⟨.unexpectedEnd expected, s.skipNewlines.position⟩, s.depth⟩ s.skipNewlines
      | t :: _ => bad ⟨⟨.expectedToken expected t.value, t.position⟩, s.depth⟩ s.skipNewlines := by
  unfold unexpected
  cases h : s.pending with
  | nil =>
    simp only [ends_bind, ends_peek, h, List.head?_nil, ends_failHere]
    exact Iff.rfl
  | cons t us =>
    simp only [ends_bind, ends_peek, h, List.head?_cons, ends_failAt]
    exact Iff.rfl

@[simp]
theorem ends_expectNamed {kind : Token.Kind} {expected : String} {good : Token → State → Prop} :
    Ends (expectNamed kind expected) s good bad ↔ match s.pending with
      | [] => bad ⟨⟨.unexpectedEnd expected, s.skipNewlines.position⟩, s.depth⟩ s.skipNewlines
      | t :: _ =>
        if t.kind = kind then good t s.next
        else bad ⟨⟨.expectedToken expected t.value, t.position⟩, s.depth⟩ s.skipNewlines := by
  unfold expectNamed
  rw [ends_bind, ends_peekKind]
  cases h : s.pending with
  | nil =>
    rw [if_neg (by simp), ends_unexpected, State.pending_skipNewlines, h,
      State.skipNewlines_skipNewlines]
    exact Iff.rfl
  | cons t us =>
    by_cases hk : t.kind = kind
    · simp [h, hk]
    · rw [if_neg (by simpa using hk), ends_unexpected, State.pending_skipNewlines, h,
        State.skipNewlines_skipNewlines]
      exact (if_neg hk).symm.to_iff

@[simp]
theorem ends_descend {bound : Nat} {good : Unit → State → Prop} :
    Ends (descend (some bound)) s good bad ↔
      if s.depth < bound then good () s.descend
      else bad ⟨⟨.nestingTooDeep bound, s.position⟩, s.depth⟩ s := by
  unfold descend
  by_cases h : s.depth < bound
  · simp [h]
  · simp [h]

@[simp]
theorem ends_nested {bound : Nat} {body : Parser α} :
    Ends (nested (some bound) body) s good bad ↔
      if s.depth < bound then
        Ends body s.descend (fun a t => good a t.ascend) fun e t => bad e t.ascend
      else bad ⟨⟨.nestingTooDeep bound, s.position⟩, s.depth⟩ s := by
  apply (ends_bind.trans ends_descend).trans
  by_cases h : s.depth < bound
  · rw [if_pos h, if_pos h]
    unfold Ends
    change (match (match body.run s.descend with
      | .ok a t => EStateM.Result.ok a t.ascend
      | .error e t => EStateM.Result.error e t.ascend) with
      | .ok a t => good a t
      | .error e t => bad e t) ↔ _
    cases body.run s.descend <;> rfl
  · rw [if_neg h, if_neg h]

theorem run_nested {p q : Parser α} (limit : Option Nat) (h : p.run s.descend = q.run s.descend) :
    (nested limit p).run s = (nested limit q).run s := by
  cases limit with
  | none =>
    change (match p.run s.descend with
      | .ok a t => EStateM.Result.ok a t.ascend
      | .error e t => EStateM.Result.error e t.ascend) = _
    rw [h]
    rfl
  | some bound =>
    apply run_eq_of_ends
    intro good bad
    rw [ends_nested, ends_nested, ends_congr h]

@[simp]
theorem ends_change {c : Scope.Change} {good : Unit → State → Prop} :
    Ends (change c) s good bad ↔
      let announced := { s with journal := s.journal ++ s.scopes.events c }
      match s.scopes.after? c with
      | some table => good () { announced with scopes := table }
      | none => bad ⟨⟨.scopeUnderflow, s.position⟩, s.depth⟩ announced := by
  unfold change
  cases h : s.scopes.after? c with
  | none => simp only [ends_bind, ends_get, ends_modify, h, ends_failHere]; exact Iff.rfl
  | some table => simp only [ends_bind, ends_get, ends_modify, h]

/-- Nothing is said about failures. -/
def Yields (p : Parser α) (s : State) (good : α → State → Prop) : Prop :=
  Ends p s good fun _ _ => True

namespace Yields

variable {p : Parser α} {f : α → Parser β} {mid : α → State → Prop} {good : β → State → Prop}

theorem mono {mid' : α → State → Prop} (h : Yields p s mid) (hmid : ∀ a t, mid a t → mid' a t) :
    Yields p s mid' :=
  Ends.mono h hmid fun _ _ => id

theorem bind (hp : Yields p s mid) (hf : ∀ a t, mid a t → Yields (f a) t good) :
    Yields (p >>= f) s good :=
  ends_bind.2 (Ends.mono hp hf fun _ _ => id)

theorem discard {f : Unit → Parser β} (hp : Yields p s mid)
    (hf : ∀ a t, mid a t → Yields (f ()) t good) : Yields (Functor.discard p >>= f) s good :=
  ends_bind.2 (ends_discard.2 (Ends.mono hp hf fun _ _ => id))

theorem pure {a : α} (h : mid a s) : Yields (Pure.pure a) s mid :=
  h

theorem failAt {fault : Fault} {position : Position} :
    Yields (Parse.failAt fault position) s mid :=
  trivial

theorem nested {bound : Nat} (h : s.depth < bound → Yields p s.descend fun a t => mid a t.ascend) :
    Yields (Parse.nested (some bound) p) s mid := by
  apply ends_nested.2
  by_cases hdepth : s.depth < bound
  · rw [if_pos hdepth]
    exact h hdepth
  · rw [if_neg hdepth]
    trivial

end Yields

/-- A parse went from `s` to `t` over the tokens `us`. -/
structure Took (s : State) (us : List Token) (t : State) : Prop where
  pending : s.pending = us ++ t.pending
  depth : t.depth = s.depth

namespace Took

variable {t r : State} {us vs : List Token}

theorem refl (s : State) : Took s [] s :=
  ⟨rfl, rfl⟩

theorem skip (s : State) : Took s [] s.skipNewlines :=
  ⟨s.pending_skipNewlines.symm, rfl⟩

theorem next {u : Token} (h : s.pending = u :: us) : Took s [u] s.next :=
  ⟨by rw [State.pending_next, h]; rfl, rfl⟩

theorem trans (h : Took s us t) (h' : Took t vs r) : Took s (us ++ vs) r :=
  ⟨by rw [h.pending, h'.pending, List.append_assoc], h'.depth.trans h.depth⟩

theorem ascend (h : Took s.descend us t) : Took s us t.ascend where
  pending := h.pending
  depth := by
    have hdepth : t.depth = s.depth + 1 := h.depth
    change t.depth - 1 = s.depth
    omega

theorem length (h : Took s us t) : s.pending.length = us.length + t.pending.length := by
  rw [h.pending, List.length_append]

theorem head_eq {u v : Token} (h : Took s (u :: us) t) (hv : s.pending.head? = some v) :
    u = v := by
  rw [h.pending] at hv
  exact Option.some.inj hv

end Took

end Scopewise.Parse
