import Scopewise.Proofs.Language
import Scopewise.Proofs.Parse.Blame

namespace Scopewise

namespace Token

/-- ASCII letters and digits, the underscore, the blank, the line feed and the symbols. -/
def isAllowed (c : Char) : Bool :=
  c.isAlphanum || ['_', ' ', '\n', '\x7b', '\x7d', '(', ')', '=', ';', ':', ',', '+', '-', '/',
    '*'].contains c

/-- The diagnostic for the first character that is not allowed, in a text whose first line is
`line`. -/
def stray? (file : String) (line : Nat) (text : List Char) : Option Diagnostic :=
  (text.find? (!isAllowed ·)).map fun c =>
    ⟨.unexpectedCharacter c, (line + (text.takeWhile isAllowed).count '\n').toUInt32, file⟩

theorem isAllowed_of_isWordChar {c : Char} (h : isWordChar c = true) : isAllowed c = true := by
  rw [isWordChar, Bool.or_eq_true, decide_eq_true_eq] at h
  rw [isAllowed, Bool.or_eq_true]
  obtain h | rfl := h
  · exact .inl h
  · exact .inr (by decide)

theorem isAllowed_of_isDigit {c : Char} (h : c.isDigit = true) : isAllowed c = true := by
  simp [isAllowed, Char.isAlphanum, h]

theorem isAllowed_of_symbol? {kind : Kind} {c : Char} (h : kind.symbol? = some c) :
    isAllowed c = true := by
  cases kind <;> cases h <;> decide

theorem isAllowed_of_admits {kind : Kind} {lexeme : List Char} (h : kind.admits lexeme = true) :
    ∀ c ∈ lexeme, isAllowed c = true := by
  intro c hc
  cases kind with
  | identifier => exact isAllowed_of_isWordChar (List.all_eq_true.1 (isName_iff.1 h).2 c hc)
  | integer =>
    rw [Kind.admits, isNumeral, Bool.and_eq_true] at h
    exact isAllowed_of_isDigit (List.all_eq_true.1 h.2 c hc)
  | newline =>
    obtain rfl : lexeme = ['\n'] := of_decide_eq_true h
    obtain rfl := List.mem_singleton.1 hc
    decide
  | _ =>
    rw [← of_decide_eq_true h] at hc
    exact isAllowed_of_symbol? (Option.mem_toList.1 hc)

/-- Each allowed character begins some lexeme. -/
theorem begins_of_isAllowed {c : Char} (h : isAllowed c = true) :
    isWordStart c = true ∨ c.isDigit = true ∨ isSpace c = true ∨ c = '\n' ∨
      ∃ kind, Kind.ofSymbol? c = some kind := by
  rw [isAllowed, Char.isAlphanum, Bool.or_eq_true, Bool.or_eq_true] at h
  obtain (h | h) | h := h
  · exact .inl (by simp [isWordStart, h])
  · exact .inr (.inl h)
  · rw [List.contains_iff_mem, List.mem_cons, List.mem_cons, List.mem_cons] at h
    obtain rfl | rfl | rfl | h := h
    · exact .inl rfl
    · exact .inr (.inr (.inl rfl))
    · exact .inr (.inr (.inr (.inl rfl)))
    · have hsymbols : ['\x7b', '\x7d', '(', ')', '=', ';', ':', ',', '+', '-', '/', '*'].all
          (Kind.ofSymbol? · |>.isSome) = true := by
        decide
      have hc := List.all_eq_true.1 hsymbols c h
      exact .inr (.inr (.inr (.inr (Option.isSome_iff_exists.1 hc))))

theorem Cursor.isAllowed_of_stuck {file : String} {cursor : Cursor} {c : Char}
    (h : cursor.step file = .stuck c) : isAllowed c = false := by
  rw [Bool.eq_false_iff]
  intro hallowed
  have hbegins := begins_of_isAllowed hallowed
  unfold step at h
  split at h
  · cases h
  · split at h
    · cases h
    split at h
    · cases h
    split at h
    · cases h
    split at h
    · cases h
    split at h
    · cases h
    · cases h
      -- every way to begin a lexeme has been tried and has failed
      simp_all

section

variable {file : String} {line : Nat} {text : List Char} {d : Diagnostic}

/-- Allowed characters in front only add to the lines. -/
theorem stray?_append {lexeme : List Char} (h : ∀ c ∈ lexeme, isAllowed c = true) :
    stray? file line (lexeme ++ text) = stray? file (line + lexeme.count '\n') text := by
  have hnone : lexeme.find? (!isAllowed ·) = none := by
    rw [List.find?_eq_none]
    intro c hc
    simp [h c hc]
  rw [stray?, stray?, List.find?_append, hnone, Option.none_or, List.takeWhile_append_of_pos h,
    List.count_append, Nat.add_assoc]

theorem stray?_eq_none_iff :
    stray? file line text = none ↔ ∀ c ∈ text, isAllowed c = true := by
  simp [stray?]

theorem stray?_eq_some_iff :
    stray? file line text = some d ↔
      ∃ before c after, text = before ++ c :: after ∧ (∀ b ∈ before, isAllowed b = true) ∧
        isAllowed c = false ∧
        d = ⟨.unexpectedCharacter c, (line + before.count '\n').toUInt32, file⟩ := by
  constructor
  · intro h
    obtain ⟨c, hfind, rfl⟩ := Option.map_eq_some_iff.1 h
    obtain ⟨hc, before, after, rfl, hbefore⟩ := List.find?_eq_some_iff_append.1 hfind
    have hallowed : ∀ b ∈ before, isAllowed b = true := fun b hb => by simpa using hbefore b hb
    have hc' : isAllowed c = false := by simpa using hc
    refine ⟨before, c, after, rfl, hallowed, hc', ?_⟩
    rw [List.takeWhile_append_of_pos hallowed, List.takeWhile_cons_of_neg (by simp [hc']),
      List.append_nil]
  · rintro ⟨before, c, after, rfl, hbefore, hc, rfl⟩
    rw [stray?_append hbefore]
    simp [stray?, hc]

/-- A scan stops at the first stray character and at no other. -/
theorem scanFrom_failure? {n : Nat} {cursor : Cursor} (hn : cursor.rest.length ≤ n)
    (hline : cursor.line = line.toUInt32) :
    (scanFrom file n cursor).failure? = stray? file line cursor.rest := by
  induction n generalizing cursor line with
  | zero =>
    have hnil : cursor.rest = [] := List.eq_nil_of_length_eq_zero (Nat.le_zero.1 hn)
    rw [hnil]
    rfl
  | succ n ih =>
    unfold scanFrom
    cases hstep : cursor.step file with
    | finished =>
      have hnil : cursor.rest = [] := Cursor.step_spec hstep
      rw [hnil]
      rfl
    | stuck c =>
      obtain ⟨rest, hrest, -⟩ := Cursor.step_spec hstep
      have hc := Cursor.isAllowed_of_stuck hstep
      rw [hrest, hline]
      simp [stray?, hc]
    | read token? next =>
      obtain ⟨lexeme, hne, happend, hnext, hcases⟩ := Cursor.step_spec hstep
      have hallowed : ∀ c ∈ lexeme, isAllowed c = true := by
        obtain ⟨-, hblanks⟩ | ⟨kind, hkind, -, -⟩ := hcases
        · intro c hc
          rw [hblanks c hc]
          decide
        · exact isAllowed_of_admits hkind
      have hlength : next.rest.length ≤ n := by
        have hpos := List.length_pos_iff.2 hne
        rw [happend, List.length_append] at hn
        omega
      have hnext' : next.line = (line + lexeme.count '\n').toUInt32 := by
        rw [hnext, hline]
        exact (UInt32.ofNat_add _ _).symm
      -- the first stray character is still ahead, and the lines read so far are counted
      rw [happend, stray?_append hallowed]
      exact ih hlength hnext'

theorem tokenize_eq_error_iff_stray? {source : String} {file? : Option String} :
    tokenize source file? = .error d ↔
      stray? (file?.getD shellLabel) 1 source.toList = some d := by
  have hlength : (Cursor.ofSource source).rest.length ≤ source.length :=
    Nat.le_of_eq (String.length_toList ..)
  have hscan : (scan source (file?.getD shellLabel)).failure? =
      stray? (file?.getD shellLabel) 1 source.toList := scanFrom_failure? hlength rfl
  rw [← hscan]
  unfold tokenize
  cases hfailure : (scan source (file?.getD shellLabel)).failure? with
  | none => simp [hfailure]
  | some e => simp [hfailure]

/-- A text is scanned to the end exactly if all of it is allowed. -/
theorem exists_tokenize_eq_ok_iff (source : String) (file? : Option String) :
    (∃ tokens, tokenize source file? = .ok tokens) ↔ ∀ c ∈ source.toList, isAllowed c = true := by
  have hallowed : stray? (file?.getD shellLabel) 1 source.toList = none ↔
      ∀ c ∈ source.toList, isAllowed c = true := stray?_eq_none_iff
  rw [← hallowed]
  cases hstray : stray? (file?.getD shellLabel) 1 source.toList with
  | some d => simp [tokenize_eq_error_iff_stray?.2 hstray]
  | none =>
    cases htokens : tokenize source file? with
    | ok tokens => simp
    | error d =>
      rw [tokenize_eq_error_iff_stray?.1 htokens] at hstray
      cases hstray

end

end Token

open Token

/-- The diagnostic is about the first character of the source that is not allowed, in the line where
it stands. -/
def Diagnostic.CitesStray (d : Diagnostic) (source file : String) : Prop :=
  ∃ before c after, source.toList = before ++ c :: after ∧ (∀ b ∈ before, isAllowed b = true) ∧
    isAllowed c = false ∧ d.fault = .unexpectedCharacter c ∧
    d.position.line.toNat = 1 + before.count '\n' ∧ d.position.file = file

theorem Diagnostic.citesStray_iff {d : Diagnostic} {source file : String}
    (hsource : source.toList.count '\n' < UInt32.size - 1) :
    d.CitesStray source file ↔ stray? file 1 source.toList = some d := by
  -- few enough line feeds are counted without overflow
  have hline {before after : List Char} {c : Char} (h : source.toList = before ++ c :: after) :
      (1 + before.count '\n').toUInt32.toNat = 1 + before.count '\n' := by
    rw [h, List.count_append] at hsource
    apply UInt32.toNat_ofNat_of_lt'
    omega
  rw [stray?_eq_some_iff]
  constructor
  · rintro ⟨before, c, after, hsplit, hbefore, hc, hfault, hnumber, hfile⟩
    refine ⟨before, c, after, hsplit, hbefore, hc, ?_⟩
    obtain ⟨fault, number, label⟩ := d
    obtain rfl : number = (1 + before.count '\n').toUInt32 :=
      UInt32.toNat_inj.1 (hnumber.trans (hline hsplit).symm)
    subst hfault hfile
    rfl
  · rintro ⟨before, c, after, hsplit, hbefore, hc, rfl⟩
    exact ⟨before, c, after, hsplit, hbefore, hc, rfl, hline hsplit, rfl⟩

namespace Parse

/-- What is wrong with tokens is never a character. -/
theorem Blame.stage_ne_lexical {tokens : List Token} {file : String} {d : Diagnostic}
    (h : Blame tokens file d) : d.fault.stage ≠ .lexical := by
  cases h with
  | @token t fault ht hkind htext =>
    intro hstage
    cases fault <;> simp_all [Fault.text?, Fault.stage]
  | ending expected => simp [Fault.stage]
  | brace htokens ht => simp [Fault.stage]
  | place htokens hfault => obtain ⟨limit, rfl⟩ | rfl := hfault <;> simp [Fault.stage]

/-- The scan comes first, so its fault is reported whatever the parse would find. -/
theorem parseSource_lexical_iff {source file : String} {d : Diagnostic} :
    (parseSource source file = .error d ∧ d.fault.stage = .lexical) ↔
      tokenize source (some file) = .error d := by
  unfold parseSource
  cases htokens : tokenize source (some file) with
  | error e =>
    obtain ⟨before, c, after, -, -, -, he⟩ :=
      stray?_eq_some_iff.1 (tokenize_eq_error_iff_stray?.1 htokens)
    have hstage : e.fault.stage = .lexical := by
      rw [he]
      rfl
    constructor
    · rintro ⟨h, -⟩
      rw [Except.error.inj h]
    · intro h
      obtain rfl := Except.error.inj h
      exact ⟨rfl, hstage⟩
  | ok tokens =>
    constructor
    · rintro ⟨h, hstage⟩
      change parse tokens file = .error d at h
      have hends := parse_of_ends (guarded_program tokens file)
      rw [h] at hends
      obtain ⟨failure, _, rfl, hblame⟩ := hends
      exact absurd hstage hblame.stage_ne_lexical
    · intro h
      cases h

/-- A scan fails exactly on the texts that have a character which is not allowed, at the first such
character; and these are the lexical errors of a parse, whatever else is wrong with the text. -/
theorem lexical_error_iff (source : String)
    (hsource : source.toList.count '\n' < UInt32.size - 1) :
    (∀ file? : Option String,
      ((∃ d, tokenize source file? = .error d) ↔ ∃ c ∈ source.toList, isAllowed c = false) ∧
        ∀ d, tokenize source file? = .error d ↔ d.CitesStray source (file?.getD "shell")) ∧
    ∀ file : String,
      ((∃ d, parseSource source file = .error d ∧ d.fault.stage = .lexical) ↔
        ∃ c ∈ source.toList, isAllowed c = false) ∧
      ∀ d, (parseSource source file = .error d ∧ d.fault.stage = .lexical) ↔
        d.CitesStray source file := by
  have hfails (file? : Option String) :
      (∃ d, tokenize source file? = .error d) ↔ ∃ c ∈ source.toList, isAllowed c = false := by
    have hok := not_congr (exists_tokenize_eq_ok_iff source file?)
    cases htokens : tokenize source file? with
    | ok tokens => simpa [htokens] using hok
    | error d => simpa [htokens] using hok
  have hcites (file? : Option String) (d : Diagnostic) :
      tokenize source file? = .error d ↔ d.CitesStray source (file?.getD "shell") := by
    rw [Diagnostic.citesStray_iff hsource]
    exact tokenize_eq_error_iff_stray?
  refine ⟨fun file? => ⟨hfails file?, hcites file?⟩, fun file => ⟨?_, fun d => ?_⟩⟩
  · rw [← hfails (some file)]
    exact exists_congr fun d => parseSource_lexical_iff
  · rw [parseSource_lexical_iff]
    exact hcites (some file) d

/-- A name that is not declared and an operand that is missing stand before the stray character. -/
theorem lexical_error_iff_accent :
    "let x = y +;\n x é".toList.count '\n' < UInt32.size - 1 ∧
      parseSource "let x = y +;\n x é" "f" = .error ⟨.unexpectedCharacter 'é', 2, "f"⟩ := by
  have hsource : "let x = y +;\n x é".toList.count '\n' < UInt32.size - 1 := by decide
  refine ⟨hsource, (((lexical_error_iff _ hsource).2 "f").2 _).2 ?_ |>.1⟩
  have hbefore : "let x = y +;\n x ".toList.all isAllowed = true := by decide
  exact ⟨"let x = y +;\n x ".toList, 'é', [], by decide, List.all_eq_true.1 hbefore, by decide, rfl,
    by decide, rfl⟩

end Parse

end Scopewise
