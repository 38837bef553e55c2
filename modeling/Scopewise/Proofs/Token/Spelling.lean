import Mathlib.Data.List.TakeWhile
import Scopewise.Token.Scan

namespace Scopewise.Token

/-- Letters, digits and underscores that do not begin with a digit. -/
def isName : List Char → Bool
  | [] => false
  | c :: cs => isWordStart c && cs.all isWordChar

def isNumeral (text : List Char) : Bool :=
  !text.isEmpty && text.all Char.isDigit

/-- Whether a token of the kind may be written so. -/
def Kind.admits (kind : Kind) (lexeme : List Char) : Bool :=
  match kind with
  | .identifier => isName lexeme
  | .integer => isNumeral lexeme
  | .newline => lexeme = ['\n']
  | _ => kind.symbol?.toList = lexeme

/-- Whether a lexeme of the kind goes on with the character. -/
def Kind.continues : Kind → Char → Bool
  | .identifier => isWordChar
  | .integer => Char.isDigit
  | _ => fun _ => false

theorem Kind.admits_symbol_iff {kind : Kind} {c : Char} {lexeme : List Char}
    (h : kind.symbol? = some c) : kind.admits lexeme = true ↔ lexeme = [c] := by
  have hlexeme : kind.admits lexeme = decide ([c] = lexeme) := by
    cases kind <;> cases h <;> rfl
  rw [hlexeme, decide_eq_true_eq, eq_comm]

theorem Kind.continues_of_symbol {kind : Kind} {c : Char} (h : kind.symbol? = some c) (d : Char) :
    kind.continues d = false := by
  cases kind <;> cases h <;> rfl

/-- The text is the lexemes of the tokens with blanks between them, and then the rest; lines are
counted from the given one. -/
inductive Spells (file : String) : Nat → List Char → List Token → List Char → Prop
  | done (line : Nat) (rest : List Char) : Spells file line rest [] rest
  | blank {line : Nat} {text rest : List Char} {tokens : List Token}
      (h : Spells file line text tokens rest) : Spells file line (' ' :: text) tokens rest
  | token {line : Nat} {kind : Kind} {lexeme text rest : List Char} {tokens : List Token}
      (hkind : kind.admits lexeme = true)
      (h : Spells file (line + lexeme.count '\n') text tokens rest) :
      Spells file line (lexeme ++ text)
        (⟨kind, String.ofList lexeme, line.toUInt32, file⟩ :: tokens) rest

theorem isWordChar_of_isWordStart {c : Char} (h : isWordStart c = true) : isWordChar c = true := by
  simp only [isWordStart, isWordChar, Char.isAlphanum, Bool.or_eq_true] at h ⊢
  exact h.imp_left Or.inl

theorem isName_iff {text : List Char} :
    isName text = true ↔ (∃ c ∈ text.head?, isWordStart c = true) ∧ text.all isWordChar := by
  cases text with
  | nil => simp [isName]
  | cons c cs =>
    simp only [isName, Bool.and_eq_true, List.head?_cons, Option.mem_some_iff, exists_eq_left',
      List.all_cons]
    constructor
    · intro h
      exact ⟨h.1, isWordChar_of_isWordStart h.1, h.2⟩
    · intro h
      exact ⟨h.1, h.2.2⟩

/-- Only a newline holds a line feed. -/
theorem count_newline_of_admits {kind : Kind} {lexeme : List Char}
    (h : kind.admits lexeme = true) :
    lexeme.count '\n' = if kind = .newline then 1 else 0 := by
  have hall (p : Char → Bool) (hp : p '\n' = false) (hlexeme : lexeme.all p = true) :
      lexeme.count '\n' = 0 := by
    rw [List.count_eq_zero]
    intro hmem
    have := List.all_eq_true.1 hlexeme _ hmem
    rw [hp] at this
    exact absurd this (by simp)
  cases kind with
  | identifier => exact hall isWordChar rfl (isName_iff.1 h).2
  | integer =>
    simp only [Kind.admits, isNumeral, Bool.and_eq_true] at h
    exact hall Char.isDigit rfl h.2
  | newline =>
    obtain rfl : lexeme = ['\n'] := by simpa [Kind.admits] using h
    rfl
  | _ =>
    obtain rfl := of_decide_eq_true h
    rfl

theorem ne_nil_of_admits {kind : Kind} {lexeme : List Char} (h : kind.admits lexeme = true) :
    lexeme ≠ [] := by
  rintro rfl
  cases kind <;> simp [Kind.admits, isName, isNumeral, Kind.symbol?] at h

namespace Cursor

variable {file : String} {cursor : Cursor}

private theorem count_newline_takeWhile {p : Char → Bool} (hp : p '\n' = false)
    (text : List Char) : (text.takeWhile p).count '\n' = 0 := by
  rw [List.count_eq_zero]
  intro hmem
  have := List.mem_takeWhile_imp hmem
  rw [hp] at this
  exact absurd this (by simp)

private theorem takeWhile_ne_nil {p : Char → Bool} {c : Char} {rest : List Char}
    (hc : p c = true) : (c :: rest).takeWhile p ≠ [] := by
  rw [List.takeWhile_cons_of_pos hc]
  exact List.cons_ne_nil _ _

private theorem head?_dropWhile {p : Char → Bool} {text : List Char} :
    ∀ c ∈ (text.dropWhile p).head?, p c = false := by
  intro c hc
  have hstop := List.head?_dropWhile_not p text
  rw [Option.mem_def.1 hc] at hstop
  exact hstop

/-- A step takes one whole lexeme or a run of blanks from the front of the text; it ends with the
text, or at a character that is no line feed. -/
theorem step_spec {result : Step} (h : cursor.step file = result) :
    match result with
    | .finished => cursor.rest = []
    | .stuck c => ∃ rest, cursor.rest = c :: rest ∧ c ≠ '\n'
    | .read token? next => ∃ lexeme, lexeme ≠ [] ∧ cursor.rest = lexeme ++ next.rest ∧
        next.line = cursor.line + (lexeme.count '\n').toUInt32 ∧
        (token? = none ∧ (∀ c ∈ lexeme, c = ' ') ∨
          ∃ kind : Kind, kind.admits lexeme = true ∧
            (∀ c ∈ next.rest.head?, kind.continues c = false) ∧
            token? = some ⟨kind, String.ofList lexeme, cursor.line, file⟩) := by
  -- a run of characters in `p`, which holds no line feed
  have hrun (p : Char → Bool) {c : Char} {rest : List Char} (hrest : cursor.rest = c :: rest)
      (hc : p c = true) (hp : p '\n' = false) :
      cursor.lexeme p ≠ [] ∧ cursor.rest = cursor.lexeme p ++ (cursor.skip p).rest ∧
        (cursor.skip p).line = cursor.line + ((cursor.lexeme p).count '\n').toUInt32 := by
    refine ⟨?_, List.takeWhile_append_dropWhile.symm, ?_⟩
    · rw [lexeme, hrest]
      exact takeWhile_ne_nil hc
    · rw [lexeme, count_newline_takeWhile hp]
      exact (UInt32.add_zero _).symm
  unfold step at h
  cases hrest : cursor.rest with
  | nil =>
    simp only [hrest] at h
    subst h
    rfl
  | cons c rest =>
    simp only [hrest] at h
    split at h
    · next hc =>
      subst h
      obtain ⟨hne, happend, hline⟩ :=
        hrun isWordChar hrest (isWordChar_of_isWordStart hc) rfl
      refine ⟨cursor.lexeme isWordChar, hne, hrest ▸ happend, hline,
        .inr ⟨.identifier, ?_, head?_dropWhile, rfl⟩⟩
      rw [Kind.admits, isName_iff, lexeme, hrest]
      refine ⟨?_, List.all_takeWhile⟩
      rw [List.takeWhile_cons_of_pos (isWordChar_of_isWordStart hc)]
      exact ⟨c, rfl, hc⟩
    split at h
    · next hc =>
      subst h
      obtain ⟨hne, happend, hline⟩ := hrun Char.isDigit hrest hc rfl
      refine ⟨cursor.lexeme Char.isDigit, hne, hrest ▸ happend, hline,
        .inr ⟨.integer, ?_, head?_dropWhile, rfl⟩⟩
      rw [Kind.admits, isNumeral, Bool.and_eq_true]
      exact ⟨by simpa using hne, List.all_takeWhile⟩
    split at h
    · next hc =>
      subst h
      obtain ⟨hne, happend, hline⟩ := hrun isSpace hrest hc rfl
      refine ⟨cursor.lexeme isSpace, hne, hrest ▸ happend, hline, .inl ⟨rfl, ?_⟩⟩
      intro d hd
      simpa [isSpace] using List.mem_takeWhile_imp hd
    split at h
    · next hc =>
      subst h hc
      exact ⟨['\n'], by simp, rfl, rfl, .inr ⟨.newline, rfl, fun _ _ => rfl, rfl⟩⟩
    next hc =>
    -- only here is it settled that the character is no line feed
    split at h
    · next kind hkind =>
      subst h
      have hsymbol := Kind.ofSymbol?_eq_some_iff.1 hkind
      refine ⟨[c], by simp, rfl, ?_, .inr ⟨kind, (Kind.admits_symbol_iff hsymbol).2 rfl,
        fun d _ => Kind.continues_of_symbol hsymbol d, rfl⟩⟩
      rw [List.count_singleton, beq_false_of_ne hc]
      exact (UInt32.add_zero _).symm
    · subst h
      exact ⟨rest, rfl, hc⟩

end Cursor

variable {file : String} {line : Nat} {text rest : List Char} {tokens : List Token}

theorem Spells.blanks {blanks : List Char} (hblanks : ∀ c ∈ blanks, c = ' ')
    (h : Spells file line text tokens rest) :
    Spells file line (blanks ++ text) tokens rest := by
  induction blanks with
  | nil => exact h
  | cons c cs ih =>
    obtain rfl := hblanks c List.mem_cons_self
    exact .blank (ih fun d hd => hblanks d (List.mem_cons_of_mem _ hd))

/-- The line where a scan stops is the number of line feeds that it has passed. -/
theorem scanFrom_spells {n : Nat} {cursor : Cursor} (hn : cursor.rest.length ≤ n)
    (hline : cursor.line = line.toUInt32) :
    ∃ read rest, cursor.rest = read ++ rest ∧
      Spells file line cursor.rest (scanFrom file n cursor).tokens rest ∧
      match (scanFrom file n cursor).failure? with
      | none => rest = []
      | some d => ∃ c ∈ rest.head?, c ≠ '\n' ∧
          d = ⟨.unexpectedCharacter c, (line + read.count '\n').toUInt32, file⟩ := by
  induction n generalizing cursor line with
  | zero =>
    have hnil : cursor.rest = [] := List.eq_nil_of_length_eq_zero (Nat.le_zero.1 hn)
    rw [hnil]
    exact ⟨[], [], rfl, .done line [], rfl⟩
  | succ n ih =>
    unfold scanFrom
    cases hstep : cursor.step file with
    | finished =>
      have hnil : cursor.rest = [] := Cursor.step_spec hstep
      rw [hnil]
      exact ⟨[], [], rfl, .done line [], rfl⟩
    | stuck c =>
      obtain ⟨rest, hrest, hc⟩ := Cursor.step_spec hstep
      refine ⟨[], cursor.rest, rfl, .done line _, c, by rw [hrest]; rfl, hc, ?_⟩
      rw [hline]
      rfl
    | read token? next =>
      obtain ⟨lexeme, hne, happend, hnext, hcases⟩ := Cursor.step_spec hstep
      have hlength : next.rest.length ≤ n := by
        have hpos := List.length_pos_iff.2 hne
        rw [happend, List.length_append] at hn
        omega
      -- the cursor counts modulo the word size, which the sum of the counts passes through
      have hnext' : next.line = (line + lexeme.count '\n').toUInt32 := by
        rw [hnext, hline]
        exact (UInt32.ofNat_add _ _).symm
      obtain ⟨read, rest, hread, hspells, hfailure⟩ := ih hlength hnext'
      refine ⟨lexeme ++ read, rest, by rw [happend, hread, List.append_assoc], ?_, ?_⟩
      · rw [happend]
        obtain ⟨rfl, hblanks⟩ | ⟨kind, hkind, -, rfl⟩ := hcases
        · have hzero : lexeme.count '\n' = 0 := by
            rw [List.count_eq_zero]
            intro hmem
            exact absurd (hblanks _ hmem) (by decide)
          rw [hzero] at hspells
          exact hspells.blanks hblanks
        · rw [hline]
          exact .token hkind hspells
      · rw [List.count_append, ← Nat.add_assoc]
        exact hfailure

/-- The number of newlines among some tokens. -/
def newlines (tokens : List Token) : Nat :=
  tokens.countP (·.kind = .newline)

theorem newlines_append (before after : List Token) :
    newlines (before ++ after) = newlines before + newlines after :=
  List.countP_append

theorem Spells.count_newline (h : Spells file line text tokens rest) :
    text.count '\n' = newlines tokens + rest.count '\n' := by
  induction h with
  | done line rest => simp [newlines]
  | blank h ih => simpa using ih
  | @token line kind lexeme text rest tokens hkind h ih =>
    rw [List.count_append, count_newline_of_admits hkind, ih, newlines, newlines,
      List.countP_cons]
    simp only [decide_eq_true_eq]
    omega

/-- A token stands in the text where its line says. -/
theorem Spells.exists_split (h : Spells file line text tokens rest) {before after : List Token}
    {t : Token} (htokens : tokens = before ++ t :: after) :
    ∃ pre post, text = pre ++ t.value.toList ++ post ∧ pre.count '\n' = newlines before ∧
      t.position = ⟨(line + newlines before).toUInt32, file⟩ ∧
      t.kind.admits t.value.toList = true := by
  induction h generalizing before with
  | done line rest => simp at htokens
  | blank h ih =>
    obtain ⟨pre, post, htext, hcount, hposition, hkind⟩ := ih htokens
    exact ⟨' ' :: pre, post, by rw [htext]; rfl, by simpa using hcount, hposition, hkind⟩
  | @token line kind lexeme text rest tokens hkind h ih =>
    cases before with
    | nil =>
      obtain ⟨rfl, rfl⟩ := List.cons.inj htokens
      exact ⟨[], text, by simp, rfl, rfl, by simpa using hkind⟩
    | cons first before =>
      obtain ⟨rfl, htail⟩ := List.cons.inj htokens
      obtain ⟨pre, post, htext, hcount, hposition, hkind'⟩ := ih htail
      have hnewlines : lexeme.count '\n' + newlines before =
          newlines (⟨kind, String.ofList lexeme, line.toUInt32, file⟩ :: before) := by
        rw [count_newline_of_admits hkind, newlines, newlines, List.countP_cons]
        simp only [decide_eq_true_eq]
        omega
      refine ⟨lexeme ++ pre, post, by rw [htext]; simp, ?_, ?_, hkind'⟩
      · rw [List.count_append, hcount, hnewlines]
      · rw [hposition, ← hnewlines, Nat.add_assoc]

theorem Spells.admits (h : Spells file line text tokens rest) {t : Token} (ht : t ∈ tokens) :
    t.kind.admits t.value.toList = true := by
  obtain ⟨before, after, htokens⟩ := List.append_of_mem ht
  obtain ⟨_, _, _, _, _, hkind⟩ := h.exists_split htokens
  exact hkind

theorem scan_spells (source file : String) :
    ∃ read rest, source.toList = read ++ rest ∧
      Spells file 1 source.toList (scan source file).tokens rest ∧
      match (scan source file).failure? with
      | none => rest = []
      | some d => ∃ c ∈ rest.head?, c ≠ '\n' ∧
          d = ⟨.unexpectedCharacter c, (1 + read.count '\n').toUInt32, file⟩ := by
  have hlength : (Cursor.ofSource source).rest.length ≤ source.length := by
    exact Nat.le_of_eq (String.length_toList ..)
  exact scanFrom_spells hlength rfl

theorem tokenize_eq_ok {source : String} (h : tokenize source (some file) = .ok tokens) :
    Spells file 1 source.toList tokens [] := by
  obtain ⟨read, rest, -, hspells, hfailure⟩ := scan_spells source file
  unfold tokenize at h
  simp only [Option.getD_some] at h
  split at h
  · cases h
  · next hnone =>
    obtain rfl := Except.ok.inj h
    rw [hnone] at hfailure
    rwa [hfailure] at hspells

theorem tokenize_eq_error {source : String} {d : Diagnostic}
    (h : tokenize source (some file) = .error d) :
    ∃ read c rest, source.toList = read ++ c :: rest ∧ c ≠ '\n' ∧
      d = ⟨.unexpectedCharacter c, (1 + read.count '\n').toUInt32, file⟩ := by
  obtain ⟨read, rest, hsource, -, hfailure⟩ := scan_spells source file
  unfold tokenize at h
  simp only [Option.getD_some] at h
  split at h
  · next d' hsome =>
    obtain rfl := Except.error.inj h
    rw [hsome] at hfailure
    obtain ⟨c, hc, hne, hd⟩ := hfailure
    obtain ⟨rest', rfl⟩ := List.head?_eq_some_iff.1 hc
    exact ⟨read, c, rest', hsource, hne, hd⟩
  · cases h

end Scopewise.Token
