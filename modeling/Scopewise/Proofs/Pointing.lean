import Scopewise.Cli.Report
import Scopewise.Proofs.Language
import Scopewise.Proofs.Parse.Blame

namespace Scopewise

open Token

namespace Source

theorem lineAfter?_cons_newline (n : Nat) (text : List Char) :
    lineAfter? (n + 1) ('\n' :: text) = lineAfter? n text := by
  rw [lineAfter?, List.dropWhile_cons_of_neg (by simp)]

theorem lineAfter?_cons_of_ne {c : Char} (hc : c ≠ '\n') (n : Nat) (text : List Char) :
    lineAfter? (n + 1) (c :: text) = lineAfter? (n + 1) text := by
  rw [lineAfter?, lineAfter?, List.dropWhile_cons_of_pos (by simpa using hc)]

/-- There is a line behind every line feed. -/
theorem exists_lineAfter? {n : Nat} {text : List Char} (h : n ≤ text.count '\n') :
    ∃ line, lineAfter? n text = some line := by
  induction text generalizing n with
  | nil =>
    obtain rfl : n = 0 := Nat.le_zero.1 h
    exact ⟨[], rfl⟩
  | cons c text ih =>
    cases n with
    | zero => exact ⟨_, rfl⟩
    | succ n =>
      by_cases hc : c = '\n'
      · subst hc
        rw [List.count_cons_self] at h
        rw [lineAfter?_cons_newline]
        exact ih (by omega)
      · rw [List.count_cons_of_ne hc] at h
        rw [lineAfter?_cons_of_ne hc]
        exact ih h

/-- A piece of one line is found in the line with as many line feeds before it. -/
theorem lineAfter?_append (pre mid post : List Char) (hmid : '\n' ∉ mid) :
    ∃ line, lineAfter? (pre.count '\n') (pre ++ mid ++ post) = some line ∧ mid <:+: line := by
  induction pre with
  | nil =>
    have hall : ∀ c ∈ mid, decide (c ≠ '\n') = true := by
      intro c hc
      exact decide_eq_true fun h => hmid (h ▸ hc)
    refine ⟨_, rfl, ?_⟩
    rw [List.nil_append, List.takeWhile_append_of_pos hall]
    exact (List.prefix_append _ _).isInfix
  | cons c pre ih =>
    obtain ⟨line, hline, hwithin⟩ := ih
    by_cases hc : c = '\n'
    · subst hc
      rw [List.count_cons_self]
      exact ⟨line, by rw [← hline]; exact lineAfter?_cons_newline _ _, hwithin⟩
    · rw [List.count_cons_of_ne hc]
      -- `c` belongs to the line that is looked up only if no line feed follows it
      cases hn : pre.count '\n' with
      | zero =>
        rw [hn] at hline
        refine ⟨c :: line, ?_, List.infix_cons hwithin⟩
        have htake : (pre ++ mid ++ post).takeWhile (· ≠ '\n') = line := Option.some.inj hline
        change some (List.takeWhile _ (c :: (pre ++ mid ++ post))) = _
        rw [List.takeWhile_cons_of_pos (by simpa using hc), htake]
      | succ n =>
        rw [hn] at hline
        exact ⟨line, by rw [← hline]; exact lineAfter?_cons_of_ne hc _ _, hwithin⟩

end Source

/-- The line that the diagnostic points at, as it is shown. -/
def Diagnostic.snippet (d : Diagnostic) (text : String) : String :=
  let number := toString d.position.line.toNat
  bar number.length ++ " " ++ number ++ " | " ++ Text.trimEnd text ++ "\n" ++ bar number.length

/-- The diagnostic points at the line `text` of the source. -/
structure Diagnostic.StandsAt (d : Diagnostic) (source file text : String) : Prop where
  file_eq : d.position.file = file
  one_le_line : 1 ≤ d.position.line.toNat
  line_le : d.position.line.toNat ≤ 1 + source.toList.count '\n'
  line?_eq : Source.line? source d.position.line = some text

/-- The diagnostic points at a line of the source, and what it cites is there: a character, a token
of the source that stands in the line, or a closing brace. What ends too early ends in the last
line. -/
structure Diagnostic.PointsTo (d : Diagnostic) (source file text : String) : Prop
    extends d.StandsAt source file text where
  character (c : Char) : d.fault = .unexpectedCharacter c → c ∈ text.toList
  token (word : String) : d.fault.text? = some word → word.toList <:+: text.toList ∧
    ∃ tokens, tokenize source (some file) = .ok tokens ∧
      ∃ t ∈ tokens, t.value = word ∧ t.line = d.position.line
  brace : d.fault = .unmatchedBrace → '\x7d' ∈ text.toList ∧
    ∃ tokens, tokenize source (some file) = .ok tokens ∧
      ∃ t ∈ tokens, t.kind = .closeCurly ∧ t.line = d.position.line
  ending (expected : String) : d.fault = .unexpectedEnd expected →
    d.position.line.toNat = 1 + source.toList.count '\n'

/-- The snippet is part of what is reported. -/
theorem Diagnostic.StandsAt.report {d : Diagnostic} {source file text : String}
    (h : d.StandsAt source file text) :
    ∃ help, d.report source = d.message ++ "\n" ++ d.snippet text ++ help := by
  unfold Diagnostic.report
  rw [h.line?_eq]
  exact ⟨_, rfl⟩

section

variable {source file : String} {tokens : List Token} {d : Diagnostic} {fault : Fault} {n : Nat}

/-- Few enough line feeds are counted without overflow. -/
theorem toNat_line (hn : n ≤ source.toList.count '\n')
    (hsource : source.toList.count '\n' < UInt32.size - 1) : (1 + n).toUInt32.toNat = 1 + n := by
  apply UInt32.toNat_ofNat_of_lt'
  omega

theorem standsAt (hn : n ≤ source.toList.count '\n')
    (hsource : source.toList.count '\n' < UInt32.size - 1) {line : List Char}
    (hline : Source.lineAfter? n source.toList = some line) :
    Diagnostic.StandsAt ⟨fault, (1 + n).toUInt32, file⟩ source file (String.ofList line) := by
  have htoNat := toNat_line hn hsource
  have hne : (1 + n).toUInt32 ≠ 0 := by
    intro h
    rw [h] at htoNat
    change 0 = 1 + n at htoNat
    omega
  refine ⟨rfl, ?_, ?_, ?_⟩
  · show 1 ≤ (1 + n).toUInt32.toNat
    omega
  · show (1 + n).toUInt32.toNat ≤ _
    omega
  · show Source.line? source (1 + n).toUInt32 = _
    rw [Source.line?, if_neg hne, htoNat, Nat.add_sub_cancel_left, hline]
    rfl

theorem pointsTo_of_tokenize (hsource : source.toList.count '\n' < UInt32.size - 1)
    (h : tokenize source (some file) = .error d) : ∃ text, d.PointsTo source file text := by
  obtain ⟨read, c, rest, hsplit, hc, rfl⟩ := tokenize_eq_error h
  have hle : read.count '\n' ≤ source.toList.count '\n' := by
    rw [hsplit, List.count_append]
    omega
  obtain ⟨line, hfound, hwithin⟩ := Source.lineAfter?_append read [c] rest
    (by simpa using Ne.symm hc)
  rw [List.append_assoc, List.singleton_append, ← hsplit] at hfound
  refine ⟨String.ofList line, standsAt hle hsource hfound, ?_, ?_, ?_, ?_⟩
  · intro c' hc'
    obtain rfl := Fault.unexpectedCharacter.inj hc'
    rw [String.toList_ofList]
    exact hwithin.subset (List.mem_singleton_self c)
  all_goals simp [Fault.text?]

/-- A token stands in its line. -/
theorem exists_line (hspells : Spells file 1 source.toList tokens []) {before after : List Token}
    {t : Token} (htokens : tokens = before ++ t :: after) (ht : t.kind ≠ .newline) :
    ∃ line, Source.lineAfter? (newlines before) source.toList = some line ∧
      t.value.toList <:+: line ∧ newlines before ≤ source.toList.count '\n' ∧
      t.position = ⟨(1 + newlines before).toUInt32, file⟩ ∧
      t.kind.admits t.value.toList = true := by
  obtain ⟨pre, post, htext, hcount, hposition, hkind⟩ := hspells.exists_split htokens
  have hmid : '\n' ∉ t.value.toList := by
    have hzero := count_newline_of_admits hkind
    rw [if_neg ht] at hzero
    exact List.count_eq_zero.1 hzero
  obtain ⟨line, hline, hwithin⟩ := Source.lineAfter?_append pre t.value.toList post hmid
  rw [← htext, hcount] at hline
  have hle : newlines before ≤ source.toList.count '\n' := by
    rw [← hcount, htext, List.count_append, List.count_append]
    omega
  exact ⟨line, hline, hwithin, hle, hposition, hkind⟩

theorem pointsTo_of_blame (hsource : source.toList.count '\n' < UInt32.size - 1)
    (htokens : tokenize source (some file) = .ok tokens) (h : Parse.Blame tokens file d) :
    ∃ text, d.PointsTo source file text := by
  have hspells := tokenize_eq_ok htokens
  have htotal : source.toList.count '\n' = newlines tokens := hspells.count_newline
  cases h with
  | @token t fault ht hkind htext =>
    obtain ⟨before, after, hsplit⟩ := List.append_of_mem ht
    obtain ⟨line, hline, hwithin, hle, hposition, -⟩ := exists_line hspells hsplit hkind
    rw [hposition]
    refine ⟨String.ofList line, standsAt hle hsource hline, ?_, ?_, ?_, ?_⟩
    · rintro c rfl
      cases htext
    · intro word hword
      obtain rfl : t.value = word := Option.some.inj (htext.symm.trans hword)
      refine ⟨by rw [String.toList_ofList]; exact hwithin, tokens, htokens, t, ht, rfl, ?_⟩
      rw [Token.line, hposition]
    · rintro rfl
      cases htext
    · rintro expected rfl
      cases htext
  | ending expected =>
    obtain ⟨line, hline⟩ := Source.exists_lineAfter? (Nat.le_of_eq htotal.symm)
    refine ⟨String.ofList line, standsAt (Nat.le_of_eq htotal.symm) hsource hline, ?_, ?_, ?_, ?_⟩
    · simp
    · simp [Fault.text?]
    · simp
    · intro expected' _
      rw [htotal]
      exact toNat_line (Nat.le_of_eq htotal.symm) hsource
  | @brace before after t hsplit ht =>
    have hlayout : t.kind ≠ .newline := by simp [ht]
    obtain ⟨line, hline, hwithin, hle, hposition, hkind⟩ := exists_line hspells hsplit hlayout
    refine ⟨String.ofList line, standsAt hle hsource hline, ?_, ?_, ?_, ?_⟩
    · simp
    · simp [Fault.text?]
    · intro _
      rw [ht] at hkind
      have hvalue : t.value.toList = ['\x7d'] := (Kind.admits_symbol_iff rfl).1 hkind
      rw [hvalue] at hwithin
      rw [String.toList_ofList]
      refine ⟨hwithin.subset (List.mem_singleton_self _), tokens, htokens, t, ?_, ht, ?_⟩
      · rw [hsplit]
        simp
      · rw [Token.line, hposition]
    · simp
  | @place before after fault hsplit hfault =>
    have hle : newlines before ≤ source.toList.count '\n' := by
      rw [htotal, hsplit, newlines_append]
      omega
    obtain ⟨line, hline⟩ := Source.exists_lineAfter? hle
    refine ⟨String.ofList line, standsAt hle hsource hline, ?_, ?_, ?_, ?_⟩
    all_goals obtain ⟨limit, rfl⟩ | rfl := hfault
    all_goals simp [Fault.text?]

end

namespace Parse

/-- Every diagnostic of a source points at a line of it that is shown and that it is true of. -/
theorem parseSource_error_pointsTo (source file : String)
    (hsource : source.toList.count '\n' < UInt32.size - 1) (d : Diagnostic)
    (h : parseSource source file = .error d) :
    ∃ text, d.PointsTo source file text ∧
      ∃ help, d.report source = d.message ++ "\n" ++ d.snippet text ++ help := by
  have hpoints : ∃ text, d.PointsTo source file text := by
    unfold parseSource at h
    cases htokens : tokenize source (some file) with
    | error d' =>
      rw [htokens] at h
      obtain rfl := Except.error.inj h
      exact pointsTo_of_tokenize hsource htokens
    | ok tokens =>
      rw [htokens] at h
      change parse tokens file = .error d at h
      have hends := parse_of_ends (guarded_program tokens file)
      rw [h] at hends
      obtain ⟨failure, _, rfl, hblame⟩ := hends
      exact pointsTo_of_blame hsource htokens hblame
  obtain ⟨text, htext⟩ := hpoints
  exact ⟨text, htext, htext.report⟩

/-- A name that nothing declares is reported with the line it stands in, the second of two. -/
theorem parseSource_error_pointsTo_undeclared :
    let source := "let x = 1;\nx + y"
    let d : Diagnostic := ⟨.variableUndeclared "y", 2, "f"⟩
    source.toList.count '\n' < UInt32.size - 1 ∧ parseSource source "f" = .error d ∧
      d.PointsTo source "f" "x + y" ∧ "y".toList <:+: "x + y".toList ∧
      ∃ help, d.report source = d.message ++ "\n" ++ d.snippet "x + y" ++ help := by
  intro source d
  have hsource : source.toList.count '\n' < UInt32.size - 1 := by decide
  have h : parseSource source "f" = .error d := by decide +kernel
  obtain ⟨text, hpoints, hreport⟩ := parseSource_error_pointsTo source "f" hsource d h
  have hline : Source.line? source 2 = some "x + y" := by decide
  obtain rfl : text = "x + y" := Option.some.inj (hpoints.line?_eq.symm.trans hline)
  exact ⟨hsource, h, hpoints, (hpoints.token "y" rfl).1, hreport⟩

end Parse

end Scopewise
