import Scopewise.Proofs.Token.Rendering

namespace Scopewise.Token

/-- The token as many lines further down. -/
def down (lines : Nat) (t : Token) : Token :=
  { t with position := { t.position with line := t.position.line + lines.toUInt32 } }

variable {file : String} {line lines : Nat} {t : Token} {tokens tokens' : List Token}

theorem placed_append_iff :
    Placed file line (tokens ++ tokens') ↔
      Placed file line tokens ∧ Placed file (line + newlines tokens) tokens' := by
  induction tokens generalizing line with
  | nil => simp [Placed, newlines]
  | cons t tokens ih =>
    have hnewlines : newlines (t :: tokens) = newlines [t] + newlines tokens :=
      newlines_append [t] tokens
    rw [List.cons_append, placed_cons_iff, placed_cons_iff, ih, hnewlines, and_assoc, Nat.add_assoc]

theorem Placed.down (h : Placed file line tokens) (lines : Nat) :
    Placed file (line + lines) (tokens.map (down lines)) := by
  induction tokens generalizing line with
  | nil => simp [Placed]
  | cons t tokens ih =>
    obtain ⟨ht, htokens⟩ := placed_cons_iff.1 h
    refine placed_cons_iff.2 ⟨?_, ?_⟩
    · rw [Token.down, ht]
      exact congrArg (Position.mk · file) (UInt32.ofNat_add _ _).symm
    · have hdown := ih htokens
      rw [Nat.add_right_comm] at hdown
      exact hdown

/-- A piece in the middle has its blanks behind it, and those of the piece before it in front. -/
theorem written_append (lead gap : Nat) (pieces pieces' : List (Token × Nat)) :
    written lead (pieces ++ (t, gap) :: pieces') =
      written lead pieces ++ (t.value.toList ++ written gap pieces') := by
  induction pieces generalizing lead with
  | nil => rfl
  | cons p pieces ih =>
    rw [List.cons_append, written, ih, written, List.append_assoc, List.append_assoc]

theorem written_map_down (lead : Nat) (pieces : List (Token × Nat)) :
    written lead (pieces.map (Prod.map (down lines) id)) = written lead pieces := by
  induction pieces generalizing lead with
  | nil => rfl
  | cons p pieces ih =>
    rw [List.map_cons, written, Prod.map, id, ih]
    rfl

theorem Apart.map_down {pieces : List (Token × Nat)} (h : Apart pieces) :
    Apart (pieces.map (Prod.map (down lines) id)) :=
  (List.isChain_map _).2 h

/-- Nothing runs together with a line feed. -/
theorem Apart.append {pieces pieces' : List (Token × Nat)} {gap : Nat} (h : Apart pieces)
    (h' : Apart pieces') (ht : t.kind = .newline) : Apart (pieces ++ (t, gap) :: pieces') := by
  refine List.isChain_append.2 ⟨h, apart_cons_iff.2 ⟨fun p _ hjoins => ?_, h'⟩, ?_⟩
  · rw [ht] at hjoins
    cases hjoins
  · intro p _ q hq hjoins
    obtain rfl : (t, gap) = q := Option.some.inj hq
    rw [ht] at hjoins
    cases hkind : p.1.kind <;> rw [hkind] at hjoins <;> cases hjoins

/-- Two texts with a line feed between them are scanned one behind the other. -/
theorem tokenize_joined {source source' : String} (h : tokenize source (some file) = .ok tokens)
    (h' : tokenize source' (some file) = .ok tokens') :
    tokenize (source ++ "\n" ++ source') (some file) =
      .ok (tokens ++ ⟨.newline, "\n", (1 + newlines tokens).toUInt32, file⟩ ::
        tokens'.map (down (newlines tokens + 1))) := by
  obtain ⟨⟨lead, pieces, rfl, hsource, hapart⟩, hformed, hplaced⟩ := tokenize_eq_ok_iff.1 h
  obtain ⟨⟨lead', pieces', rfl, hsource', hapart'⟩, hformed', hplaced'⟩ := tokenize_eq_ok_iff.1 h'
  let feed : Token := ⟨.newline, "\n", (1 + newlines (pieces.map Prod.fst)).toUInt32, file⟩
  let moved := pieces'.map (Prod.map (down (newlines (pieces.map Prod.fst) + 1)) id)
  have hmoved : moved.map Prod.fst =
      (pieces'.map Prod.fst).map (down (newlines (pieces.map Prod.fst) + 1)) := by
    rw [List.map_map, List.map_map]
    rfl
  refine tokenize_eq_ok_iff.2 ⟨⟨lead, pieces ++ (feed, lead') :: moved, ?_, ?_, ?_⟩, ?_, ?_⟩
  · rw [List.map_append, List.map_cons, hmoved]
  · rw [written_append, written_map_down, String.toList_append, String.toList_append, hsource,
      hsource', List.append_assoc]
  · exact hapart.append hapart'.map_down rfl
  · have hfeed : Kind.newline.admits "\n".toList = true := by decide
    refine List.forall_mem_append.2 ⟨hformed, formed_cons_iff.2 ⟨hfeed, ?_⟩⟩
    exact List.forall_mem_map.2 hformed'
  · refine placed_append_iff.2 ⟨hplaced, placed_cons_iff.2 ⟨rfl, ?_⟩⟩
    have hdown := hplaced'.down (newlines (pieces.map Prod.fst) + 1)
    rw [← Nat.add_assoc] at hdown
    exact hdown

end Scopewise.Token
