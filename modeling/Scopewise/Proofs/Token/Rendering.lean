import Mathlib.Data.List.Chain
import Scopewise.Proofs.Token.Spelling

namespace Scopewise.Token

/-- Whether lexemes of these kinds run together if nothing stands between them. -/
def Kind.joins : Kind → Kind → Bool
  | .identifier, .identifier | .identifier, .integer | .integer, .integer => true
  | _, _ => false

/-- Blanks, and then each token with the blanks behind it. -/
def written (lead : Nat) : List (Token × Nat) → List Char
  | [] => List.replicate lead ' '
  | (t, gap) :: pieces => List.replicate lead ' ' ++ (t.value.toList ++ written gap pieces)

/-- A blank stands behind each token that would run together with the next one. -/
def Apart (pieces : List (Token × Nat)) : Prop :=
  pieces.IsChain fun a b => a.1.kind.joins b.1.kind = true → 0 < a.2

/-- Each token is written as its kind admits. -/
def Formed (tokens : List Token) : Prop :=
  ∀ t ∈ tokens, t.kind.admits t.value.toList = true

/-- The tokens carry the label, and lines that are counted from `line` on. -/
def Placed (file : String) (line : Nat) (tokens : List Token) : Prop :=
  ∀ before t after, tokens = before ++ t :: after →
    t.position = ⟨(line + newlines before).toUInt32, file⟩

theorem not_isWordStart_of_isDigit {c : Char} (h : c.isDigit = true) : isWordStart c = false := by
  have hhigh : c.val.toNat ≤ 57 := (Char.isDigit_iff_toNat.1 h).2
  have halpha : c.isAlpha = false := by
    rw [Bool.eq_false_iff]
    intro halpha
    change (decide (c.val ≥ 'A'.val ∧ c.val ≤ 'Z'.val) ||
      decide (c.val ≥ 'a'.val) && decide (c.val ≤ 'z'.val)) = true at halpha
    simp only [Bool.or_eq_true, Bool.and_eq_true, decide_eq_true_eq, ge_iff_le,
      UInt32.le_iff_toNat_le] at halpha
    change (65 ≤ c.val.toNat ∧ _) ∨ (97 ≤ c.val.toNat ∧ _) at halpha
    omega
  have hunderscore : c ≠ '_' := by
    rintro rfl
    exact absurd hhigh (by decide)
  simp [isWordStart, halpha, hunderscore]

theorem isWordChar_of_isDigit {c : Char} (h : c.isDigit = true) : isWordChar c = true := by
  simp [isWordChar, Char.isAlphanum, h]

theorem symbol_class {kind : Kind} {c : Char} (h : kind.symbol? = some c) :
    isWordStart c = false ∧ c.isDigit = false ∧ isSpace c = false ∧ c ≠ '\n' := by
  cases kind <;> cases h <;> decide

theorem not_blank_of_admits {kind : Kind} {c : Char} {cs : List Char}
    (h : kind.admits (c :: cs) = true) : c ≠ ' ' := by
  rintro rfl
  cases kind with
  | identifier =>
    have hstart : isWordStart ' ' = false := rfl
    simp [Kind.admits, isName, hstart] at h
  | integer =>
    have hdigit : ' '.isDigit = false := rfl
    simp [Kind.admits, isNumeral, hdigit] at h
  | newline => simp [Kind.admits] at h
  | _ => simp [Kind.admits, Kind.symbol?] at h

theorem Kind.continues_blank (kind : Kind) : kind.continues ' ' = false := by
  cases kind <;> rfl

/-- A lexeme goes on with the first character of another one exactly if the two run together. -/
theorem Kind.continues_eq_joins {other : Kind} {c : Char} {cs : List Char}
    (h : other.admits (c :: cs) = true) (kind : Kind) : kind.continues c = kind.joins other := by
  have hclass : isWordChar c = joins .identifier other ∧ c.isDigit = joins .integer other := by
    cases other with
    | identifier =>
      have hname : isName (c :: cs) = true := h
      rw [isName, Bool.and_eq_true] at hname
      refine ⟨isWordChar_of_isWordStart hname.1, ?_⟩
      change c.isDigit = false
      rw [Bool.eq_false_iff]
      intro hdigit
      rw [not_isWordStart_of_isDigit hdigit] at hname
      exact absurd hname.1 (by decide)
    | integer =>
      rw [admits, isNumeral, Bool.and_eq_true] at h
      have hdigit : c.isDigit = true := List.all_eq_true.1 h.2 c List.mem_cons_self
      exact ⟨isWordChar_of_isDigit hdigit, hdigit⟩
    | newline =>
      obtain ⟨rfl, -⟩ := List.cons.inj (of_decide_eq_true h)
      exact ⟨rfl, rfl⟩
    | _ =>
      obtain ⟨rfl, -⟩ := List.cons.inj (of_decide_eq_true h).symm
      exact ⟨rfl, rfl⟩
  cases kind with
  | identifier => exact hclass.1
  | integer => exact hclass.2
  | _ => rfl

section

variable {t : Token} {gap : Nat} {tokens : List Token} {pieces : List (Token × Nat)}

theorem apart_cons_iff :
    Apart ((t, gap) :: pieces) ↔
      (∀ p ∈ pieces.head?, t.kind.joins p.1.kind = true → 0 < gap) ∧ Apart pieces :=
  List.isChain_cons

theorem formed_cons_iff :
    Formed (t :: tokens) ↔ t.kind.admits t.value.toList = true ∧ Formed tokens :=
  List.forall_mem_cons

/-- Blanks in front add to those that are there. -/
theorem written_add (k gap : Nat) (pieces : List (Token × Nat)) :
    written (k + gap) pieces = List.replicate k ' ' ++ written gap pieces := by
  cases pieces with
  | nil => exact List.replicate_append_replicate.symm
  | cons p pieces =>
    rw [written, written, ← List.append_assoc (List.replicate k ' '),
      List.replicate_append_replicate]

/-- A lexeme ends where the text behind it begins exactly if it stands apart from the next. -/
theorem not_continues_written_iff (hformed : Formed (pieces.map Prod.fst)) :
    (∀ c ∈ (written gap pieces).head?, t.kind.continues c = false) ↔
      ∀ p ∈ pieces.head?, t.kind.joins p.1.kind = true → 0 < gap := by
  cases gap with
  | succ gap =>
    have hhead : (written (gap + 1) pieces).head? = some ' ' := by
      cases pieces <;> rfl
    simp [hhead, t.kind.continues_blank]
  | zero =>
    cases pieces with
    | nil => simp [written]
    | cons p pieces =>
      obtain ⟨hkind, -⟩ := formed_cons_iff.1 hformed
      obtain ⟨c, cs, hcs⟩ := List.exists_cons_of_ne_nil (ne_nil_of_admits hkind)
      have hhead : (written 0 (p :: pieces)).head? = some c := by simp [written, hcs]
      rw [hcs] at hkind
      simp [hhead, Kind.continues_eq_joins hkind]

theorem placed_cons_iff {file : String} {line : Nat} :
    Placed file line (t :: tokens) ↔
      t.position = ⟨line.toUInt32, file⟩ ∧ Placed file (line + newlines [t]) tokens := by
  have hnewlines (before : List Token) :
      line + newlines [t] + newlines before = line + newlines (t :: before) := by
    rw [Nat.add_assoc, ← newlines_append]
    rfl
  constructor
  · intro h
    refine ⟨h [] t tokens rfl, fun before u after htokens => ?_⟩
    rw [hnewlines]
    exact h (t :: before) u after (by rw [htokens]; rfl)
  · rintro ⟨ht, htokens⟩ before u after hsplit
    cases before with
    | nil =>
      obtain ⟨rfl, -⟩ := List.cons.inj hsplit
      exact ht
    | cons v before =>
      obtain ⟨rfl, hrest⟩ := List.cons.inj hsplit
      rw [← hnewlines]
      exact htokens before u after hrest

theorem Placed.tail {file : String} {line : Nat}
    (h : Placed file line (t :: tokens)) (hkind : t.kind.admits t.value.toList = true) :
    Placed file (line + t.value.toList.count '\n') tokens := by
  have hcount : t.value.toList.count '\n' = newlines [t] := by
    rw [count_newline_of_admits hkind, newlines, List.countP_singleton]
    simp only [decide_eq_true_eq]
  rw [hcount]
  exact (placed_cons_iff.1 h).2

end

namespace Cursor

variable {cursor : Cursor} {rest : List Char}

private theorem lexeme_append {p : Char → Bool} {lexeme : List Char} (hall : lexeme.all p = true)
    (hstop : ∀ c ∈ rest.head?, p c = false) (hrest : cursor.rest = lexeme ++ rest) :
    cursor.lexeme p = lexeme ∧ (cursor.skip p).rest = rest := by
  have hall' := List.all_eq_true.1 hall
  have hstop' : rest.takeWhile p = [] ∧ rest.dropWhile p = rest := by
    cases rest with
    | nil => exact ⟨rfl, rfl⟩
    | cons c rest =>
      have hc : ¬p c = true := by simp [hstop c rfl]
      exact ⟨List.takeWhile_cons_of_neg hc, List.dropWhile_cons_of_neg hc⟩
  constructor
  · rw [Cursor.lexeme, hrest, List.takeWhile_append_of_pos hall', hstop'.1, List.append_nil]
  · change cursor.rest.dropWhile p = _
    rw [hrest, List.dropWhile_append_of_pos hall', hstop'.2]

/-- A lexeme is taken whole if what is behind it is not part of it. -/
theorem step_lexeme (file : String) {kind : Kind} {lexeme : List Char}
    (hkind : kind.admits lexeme = true) (hstop : ∀ c ∈ rest.head?, kind.continues c = false)
    (hrest : cursor.rest = lexeme ++ rest) :
    ∃ next, cursor.step file =
        .read (some ⟨kind, String.ofList lexeme, cursor.line, file⟩) next ∧
      next.rest = rest ∧ next.line = cursor.line + (lexeme.count '\n').toUInt32 := by
  obtain ⟨c, cs, rfl⟩ := List.exists_cons_of_ne_nil (ne_nil_of_admits hkind)
  have hcons : cursor.rest = c :: (cs ++ rest) := hrest
  rw [count_newline_of_admits hkind]
  unfold step
  simp only [hcons]
  by_cases hsymbol : ∃ d, kind.symbol? = some d
  · obtain ⟨d, hd⟩ := hsymbol
    obtain ⟨hstart, hdigit, hspace, hnewline⟩ := symbol_class hd
    obtain ⟨rfl, rfl⟩ := List.cons.inj ((Kind.admits_symbol_iff hd).1 hkind)
    have hne : kind ≠ .newline := by
      rintro rfl
      cases hd
    rw [if_neg (by simp [hstart]), if_neg (by simp [hdigit]), if_neg (by simp [hspace]),
      if_neg hnewline, Kind.ofSymbol?_eq_some_iff.2 hd, if_neg hne]
    exact ⟨_, rfl, rfl, (UInt32.add_zero _).symm⟩
  · cases kind with
    | identifier =>
      have hname : isName (c :: cs) = true := hkind
      obtain ⟨⟨d, hd, hstart⟩, hall⟩ := isName_iff.1 hname
      obtain rfl : c = d := Option.some.inj hd
      obtain ⟨hlexeme, hskip⟩ := lexeme_append hall hstop hrest
      rw [if_pos hstart, hlexeme]
      exact ⟨_, rfl, hskip, (UInt32.add_zero _).symm⟩
    | integer =>
      rw [Kind.admits, isNumeral, Bool.and_eq_true] at hkind
      have hdigit : c.isDigit = true := List.all_eq_true.1 hkind.2 c List.mem_cons_self
      obtain ⟨hlexeme, hskip⟩ := lexeme_append hkind.2 hstop hrest
      rw [if_neg (by simp [not_isWordStart_of_isDigit hdigit]), if_pos hdigit, hlexeme]
      exact ⟨_, rfl, hskip, (UInt32.add_zero _).symm⟩
    | newline =>
      obtain ⟨rfl, rfl⟩ := List.cons.inj (of_decide_eq_true hkind)
      exact ⟨_, rfl, rfl, rfl⟩
    | _ => exact absurd ⟨_, rfl⟩ hsymbol

/-- A run of blanks is taken whole. -/
theorem step_blanks (file : String) {gap : Nat}
    (hrest : cursor.rest = List.replicate (gap + 1) ' ' ++ rest)
    (hhead : ∀ c ∈ rest.head?, c ≠ ' ') :
    ∃ next, cursor.step file = .read none next ∧ next.rest = rest ∧ next.line = cursor.line := by
  have hall : (List.replicate (gap + 1) ' ').all isSpace = true := by simp [isSpace]
  have hstop : ∀ c ∈ rest.head?, isSpace c = false := by simpa [isSpace] using hhead
  obtain ⟨-, hskip⟩ := lexeme_append hall hstop hrest
  have hcons : cursor.rest = ' ' :: (List.replicate gap ' ' ++ rest) := hrest
  unfold step
  simp only [hcons]
  rw [if_neg (by decide), if_neg (by decide), if_pos (by decide)]
  exact ⟨_, rfl, hskip, rfl⟩

end Cursor

section

variable {file : String} {line n : Nat} {cursor : Cursor}

theorem scanFrom_nil (hrest : cursor.rest = []) : scanFrom file n cursor = ⟨[], none⟩ := by
  cases n with
  | zero => rfl
  | succ n => simp [scanFrom, Cursor.step, hrest]

/-- Blanks in front make no difference but to the cursor. -/
theorem scanFrom_blanks {lead : Nat} {rest : List Char}
    (hrest : cursor.rest = List.replicate lead ' ' ++ rest) (hhead : ∀ c ∈ rest.head?, c ≠ ' ')
    (hn : cursor.rest.length ≤ n) :
    ∃ m next, scanFrom file n cursor = scanFrom file m next ∧ next.rest = rest ∧
      next.line = cursor.line ∧ rest.length ≤ m := by
  cases lead with
  | zero => exact ⟨n, cursor, rfl, hrest, rfl, by rwa [hrest] at hn⟩
  | succ lead =>
    rw [hrest, List.length_append, List.length_replicate] at hn
    obtain ⟨m, rfl⟩ : ∃ m, n = m + 1 := ⟨n - 1, by omega⟩
    obtain ⟨next, hstep, hnext, hline⟩ := Cursor.step_blanks file hrest hhead
    refine ⟨m, next, ?_, hnext, hline, by omega⟩
    simp [scanFrom, hstep]

/-- What is written for some tokens is scanned to them. -/
theorem scanFrom_written {lead : Nat} {pieces : List (Token × Nat)}
    (hformed : Formed (pieces.map Prod.fst)) (hapart : Apart pieces)
    (hplaced : Placed file line (pieces.map Prod.fst)) (hn : cursor.rest.length ≤ n)
    (hrest : cursor.rest = written lead pieces) (hline : cursor.line = line.toUInt32) :
    scanFrom file n cursor = ⟨pieces.map Prod.fst, none⟩ := by
  induction pieces generalizing lead n cursor line with
  | nil =>
    have hblanks : cursor.rest = List.replicate lead ' ' ++ [] := by simpa [written] using hrest
    obtain ⟨m, next, hscan, hnext, -, -⟩ := scanFrom_blanks hblanks (by simp) hn
    rw [hscan, scanFrom_nil hnext]
    rfl
  | cons p pieces ih =>
    obtain ⟨t, gap⟩ := p
    obtain ⟨hkind, hformed'⟩ : t.kind.admits t.value.toList = true ∧ Formed _ :=
      formed_cons_iff.1 hformed
    obtain ⟨hgap, hapart'⟩ := apart_cons_iff.1 hapart
    have hhead : ∀ c ∈ (t.value.toList ++ written gap pieces).head?, c ≠ ' ' := by
      obtain ⟨c, cs, hcs⟩ := List.exists_cons_of_ne_nil (ne_nil_of_admits hkind)
      rw [hcs] at hkind ⊢
      simpa using not_blank_of_admits hkind
    obtain ⟨m, next, hscan, hnext, hnextLine, hm⟩ := scanFrom_blanks hrest hhead hn
    have hpos := List.length_pos_iff.2 (ne_nil_of_admits hkind)
    rw [List.length_append] at hm
    obtain ⟨k, rfl⟩ : ∃ k, m = k + 1 := ⟨m - 1, by omega⟩
    obtain ⟨last, hstep, hlast, hlastLine⟩ :=
      Cursor.step_lexeme file hkind ((not_continues_written_iff hformed').2 hgap) hnext
    have hlength : last.rest.length ≤ k := by
      rw [hlast]
      omega
    have hlastLine' : last.line = (line + t.value.toList.count '\n').toUInt32 := by
      rw [hlastLine, hnextLine, hline]
      exact (UInt32.ofNat_add _ _).symm
    have hafter := ih hformed' hapart' (hplaced.tail hkind) hlength hlast hlastLine'
    have ht : t.position = ⟨next.line, file⟩ := by
      rw [hplaced [] t _ rfl, hnextLine, hline]
      rfl
    rw [hscan, scanFrom, hstep]
    simp only [hafter, String.ofList_toList, ← ht]
    rfl

/-- A scan that is not stopped has read what is written for its tokens. -/
theorem exists_written (hn : cursor.rest.length ≤ n)
    (hend : (scanFrom file n cursor).failure? = none) :
    ∃ lead pieces, pieces.map Prod.fst = (scanFrom file n cursor).tokens ∧
      cursor.rest = written lead pieces ∧ Apart pieces ∧ Formed (pieces.map Prod.fst) := by
  induction n generalizing cursor with
  | zero =>
    have hnil : cursor.rest = [] := List.eq_nil_of_length_eq_zero (Nat.le_zero.1 hn)
    exact ⟨0, [], rfl, hnil, .nil, by simp [Formed]⟩
  | succ n ih =>
    unfold scanFrom at hend ⊢
    cases hstep : cursor.step file with
    | finished =>
      have hnil : cursor.rest = [] := Cursor.step_spec hstep
      exact ⟨0, [], rfl, hnil, .nil, by simp [Formed]⟩
    | stuck c =>
      rw [hstep] at hend
      cases hend
    | read token? next =>
      rw [hstep] at hend
      obtain ⟨lexeme, hne, happend, -, hcases⟩ := Cursor.step_spec hstep
      have hlength : next.rest.length ≤ n := by
        have hpos := List.length_pos_iff.2 hne
        rw [happend, List.length_append] at hn
        omega
      obtain ⟨lead, pieces, htokens, hrest, hapart, hformed⟩ := ih hlength hend
      obtain ⟨rfl, hblanks⟩ | ⟨kind, hkind, hstop, rfl⟩ := hcases
      · refine ⟨lexeme.length + lead, pieces, htokens, ?_, hapart, hformed⟩
        rw [happend, hrest, written_add, ← List.eq_replicate_iff.2 ⟨rfl, hblanks⟩]
      · rw [hrest] at happend hstop
        refine ⟨0, (⟨kind, String.ofList lexeme, cursor.line, file⟩, lead) :: pieces, ?_, ?_,
          apart_cons_iff.2 ⟨(not_continues_written_iff hformed).1 hstop, hapart⟩,
          formed_cons_iff.2 ⟨?_, hformed⟩⟩
        · rw [List.map_cons, htokens]
          rfl
        · rw [happend, written, String.toList_ofList]
          rfl
        · rw [String.toList_ofList]
          exact hkind

/-- A text is scanned to some tokens exactly if it is what is written for them, and their lines are
counted as the scan counts. -/
theorem tokenize_eq_ok_iff {source : String} {tokens : List Token} :
    tokenize source (some file) = .ok tokens ↔
      (∃ lead pieces, pieces.map Prod.fst = tokens ∧ source.toList = written lead pieces ∧
        Apart pieces) ∧ Formed tokens ∧ Placed file 1 tokens := by
  have hlength : (Cursor.ofSource source).rest.length ≤ source.length :=
    Nat.le_of_eq (String.length_toList ..)
  constructor
  · intro h
    have hspells := tokenize_eq_ok h
    have hscan : (scan source file).failure? = none ∧ (scan source file).tokens = tokens := by
      unfold tokenize at h
      simp only [Option.getD_some] at h
      split at h
      · cases h
      · next hnone => exact ⟨hnone, Except.ok.inj h⟩
    obtain ⟨lead, pieces, htokens, hrest, hapart, hformed⟩ := exists_written hlength hscan.1
    refine ⟨⟨lead, pieces, htokens.trans hscan.2, hrest, hapart⟩, fun t ht => hspells.admits ht,
      fun before t after hsplit => ?_⟩
    obtain ⟨_, _, _, _, hposition, _⟩ := hspells.exists_split hsplit
    exact hposition
  · rintro ⟨⟨lead, pieces, rfl, hsource, hapart⟩, hformed, hplaced⟩
    have hscan : scan source file = ⟨pieces.map Prod.fst, none⟩ :=
      scanFrom_written hformed hapart hplaced hlength hsource rfl
    unfold tokenize
    simp only [Option.getD_some, hscan]

end

/-- The text is the tokens in order, with any number of blanks before, between and behind them and
at least one where two of them would run together; each token is written as its kind admits, and
says which line it is in. -/
structure Renders (source file : String) (tokens : List Token) : Prop where
  written : ∃ lead pieces, pieces.map Prod.fst = tokens ∧ source.toList = written lead pieces ∧
    Apart pieces
  formed : Formed tokens
  line : ∀ before t after, tokens = before ++ t :: after → t.line.toNat = 1 + newlines before
  label : ∀ t ∈ tokens, t.position.file = file

/-- Scanning undoes rendering: it gives the tokens that the text is a rendering of. -/
theorem tokenize_eq_ok_iff_renders (source file : String)
    (hsource : source.toList.count '\n' < UInt32.size - 1) (tokens : List Token) :
    tokenize source (some file) = .ok tokens ↔ Renders source file tokens := by
  constructor
  · intro h
    have hspells := tokenize_eq_ok h
    obtain ⟨hwritten, hformed, hplaced⟩ := tokenize_eq_ok_iff.1 h
    refine ⟨hwritten, hformed, fun before t after hsplit => ?_, fun t ht => ?_⟩
    · have hcount := hspells.count_newline
      rw [hsplit, newlines_append] at hcount
      rw [Token.line, hplaced before t after hsplit]
      apply UInt32.toNat_ofNat_of_lt'
      omega
    · obtain ⟨before, after, hsplit⟩ := List.append_of_mem ht
      rw [hplaced before t after hsplit]
  · intro h
    refine tokenize_eq_ok_iff.2 ⟨h.written, h.formed, fun before t after hsplit => ?_⟩
    have hline : t.line = (1 + newlines before).toUInt32 := by
      rw [← h.line before t after hsplit]
      exact UInt32.ofNat_toNat.symm
    have hlabel : t.position.file = file := h.label t (by rw [hsplit]; simp)
    rw [← hline, ← hlabel]
    rfl

/-- A number and a word need no blank between them, and the line feed is a token of the line that it
ends. -/
theorem renders_number_word : Renders " 12ab\nc 3" "f"
    [⟨.integer, "12", 1, "f"⟩, ⟨.identifier, "ab", 1, "f"⟩, ⟨.newline, "\n", 1, "f"⟩,
      ⟨.identifier, "c", 2, "f"⟩, ⟨.integer, "3", 2, "f"⟩] :=
  (tokenize_eq_ok_iff_renders " 12ab\nc 3" "f" (by decide) _).1 rfl

/-- A token without its place. -/
structure Lexeme where
  kind : Kind
  text : String
deriving DecidableEq, Repr

namespace Lexeme

def WellFormed (l : Lexeme) : Prop :=
  l.kind ≠ .newline ∧ l.kind.admits l.text.toList = true

/-- The lexemes with a blank behind each. -/
def spaced (ls : List Lexeme) : List Char :=
  ls.flatMap fun l => l.text.toList ++ [' ']

def token (file : String) (l : Lexeme) : Token :=
  ⟨l.kind, l.text, 1, file⟩

theorem spaced_eq_written (file : String) (ls : List Lexeme) :
    spaced ls = written 0 (ls.map fun l => (l.token file, 1)) := by
  induction ls with
  | nil => rfl
  | cons l ls ih =>
    rw [List.map_cons, written, written_add 1 0, ← ih]
    simp [spaced, token]

theorem apart_spaced (file : String) (ls : List Lexeme) :
    Apart (ls.map fun l => (l.token file, 1)) := by
  induction ls with
  | nil => exact .nil
  | cons l ls ih => exact apart_cons_iff.2 ⟨fun _ _ _ => Nat.one_pos, ih⟩

/-- Well-formed lexemes with a blank behind each are scanned to their own tokens. -/
theorem tokenize_spaced {ls : List Lexeme} (h : ∀ l ∈ ls, l.WellFormed) (file : String) :
    tokenize (String.ofList (spaced ls)) (some file) = .ok (ls.map (token file)) := by
  refine tokenize_eq_ok_iff.2 ⟨⟨0, ls.map fun l => (l.token file, 1), by simp, ?_,
    apart_spaced file ls⟩, ?_, fun before t after hsplit => ?_⟩
  · rw [String.toList_ofList, spaced_eq_written file]
  · intro t ht
    obtain ⟨l, hl, rfl⟩ := List.mem_map.1 ht
    exact (h l hl).2
  · -- none of the tokens is a newline, so all of them are in the first line
    have hformed : ∀ u ∈ before ++ t :: after, u.kind ≠ .newline ∧ u.position = ⟨1, file⟩ := by
      intro u hu
      rw [← hsplit] at hu
      obtain ⟨l, hl, rfl⟩ := List.mem_map.1 hu
      exact ⟨(h l hl).1, rfl⟩
    have hnewlines : newlines before = 0 := by
      rw [newlines, List.countP_eq_zero]
      intro u hu
      simpa using (hformed u (List.mem_append_left _ hu)).1
    rw [(hformed t (by simp)).2, hnewlines]
    rfl

end Lexeme

end Scopewise.Token
