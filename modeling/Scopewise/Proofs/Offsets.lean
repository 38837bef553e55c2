import Scopewise.Proofs.Token.Rendering
import Scopewise.Proofs.Token.Table

namespace Scopewise.Token

namespace Cursor

variable {source file : String} {tokens : List Token} {cursor next : Cursor} {p : Pattern}
  {lexeme : List Char}

/-- The step from `cursor` to `next` takes the lexeme as the handler of the pattern takes it. -/
structure Takes (file : String) (p : Pattern) (lexeme : List Char) (cursor next : Cursor) :
    Prop where
  find? : p.shape.find? cursor.rest = some lexeme
  step : cursor.step file = .read (p.handler.token? lexeme ⟨cursor.line, file⟩) next
  rest : cursor.rest = lexeme ++ next.rest
  offset : next.offset = cursor.offset + byteSize lexeme
  line : next.line = cursor.line + p.handler.lines

theorem Takes.byteSize_pos (h : cursor.Takes file p lexeme next) : 0 < byteSize lexeme :=
  Token.byteSize_pos (Shape.find?_eq_some h.find?).1

/-- Whichever pattern fits, a step does what its handler does. -/
theorem exists_takes (file : String) (hp : p ∈ patterns)
    (hfind : p.shape.find? cursor.rest = some lexeme) :
    ∃ next, cursor.Takes file p lexeme next := by
  suffices h : ∃ next, cursor.step file = .read (p.handler.token? lexeme ⟨cursor.line, file⟩) next ∧
      cursor.rest = lexeme ++ next.rest ∧ next.offset = cursor.offset + byteSize lexeme ∧
      next.line = cursor.line + p.handler.lines by
    obtain ⟨next, hstep, hrest, hoffset, hline⟩ := h
    exact ⟨next, hfind, hstep, hrest, hoffset, hline⟩
  obtain ⟨c, rest, hrest, hfirst, rfl⟩ := Shape.find?_eq_some_iff.1 hfind
  -- a run of characters in a class that holds the first one
  have hrun (more : Char → Bool) (hc : more c = true) :
      cursor.lexeme more = c :: rest.takeWhile more ∧
        cursor.rest = c :: rest.takeWhile more ++ (cursor.skip more).rest ∧
        (cursor.skip more).offset = cursor.offset + byteSize (c :: rest.takeWhile more) ∧
        (cursor.skip more).line = cursor.line + 0 := by
    have hlexeme : cursor.lexeme more = c :: rest.takeWhile more := by
      rw [Cursor.lexeme, hrest, List.takeWhile_cons_of_pos hc]
    rw [← hlexeme]
    exact ⟨rfl, List.takeWhile_append_dropWhile.symm, rfl, (UInt32.add_zero _).symm⟩
  -- a single character
  have hpast : cursor.rest = c :: rest.takeWhile (fun _ => false) ++ (cursor.past c rest).rest ∧
      (cursor.past c rest).offset =
        cursor.offset + byteSize (c :: rest.takeWhile fun _ => false) := by
    have hnone : rest.takeWhile (fun _ => false) = [] := by simp
    rw [hnone]
    exact ⟨hrest, rfl⟩
  unfold step
  simp only [hrest]
  rw [hrest] at hrun hpast
  obtain rfl | rfl | rfl | rfl | ⟨kind, d, hsymbol, rfl⟩ := mem_patterns_iff.1 hp
  · have hstart : isWordStart c = true := hfirst
    obtain ⟨hlexeme, hskip⟩ := hrun isWordChar (isWordChar_of_isWordStart hstart)
    rw [if_pos hstart, hlexeme]
    exact ⟨_, rfl, hskip⟩
  · have hdigit : c.isDigit = true := hfirst
    obtain ⟨hlexeme, hskip⟩ := hrun Char.isDigit hdigit
    rw [if_neg (by simp [not_isWordStart_of_isDigit hdigit]), if_pos hdigit, hlexeme]
    exact ⟨_, rfl, hskip⟩
  · have hspace : isSpace c = true := hfirst
    obtain ⟨-, hskip⟩ := hrun isSpace hspace
    obtain rfl : c = ' ' := of_decide_eq_true hspace
    rw [if_neg (by decide), if_neg (by decide), if_pos (by decide)]
    exact ⟨_, rfl, hskip⟩
  · obtain rfl : c = '\n' := of_decide_eq_true hfirst
    rw [if_neg (by decide), if_neg (by decide), if_neg (by decide), if_pos rfl]
    exact ⟨_, rfl, hpast.1, hpast.2, rfl⟩
  · obtain rfl : c = d := of_decide_eq_true hfirst
    obtain ⟨hstart, hdigit, hspace, hnewline⟩ := symbol_class hsymbol
    rw [if_neg (by simp [hstart]), if_neg (by simp [hdigit]), if_neg (by simp [hspace]),
      if_neg hnewline, Kind.ofSymbol?_eq_some_iff.2 hsymbol]
    exact ⟨_, rfl, hpast.1, hpast.2, (UInt32.add_zero _).symm⟩

theorem step_eq_stuck {c : Char} {rest : List Char} (hrest : cursor.rest = c :: rest)
    (hnone : firstPattern? cursor.rest = none) : cursor.step file = .stuck c := by
  have hfirst {p : Pattern} (hp : p ∈ patterns) : p.shape.first c = false := by
    have hfind := List.find?_eq_none.1 hnone p hp
    simpa [hrest, Shape.find?] using hfind
  have hword : isWordStart c = false := hfirst (mem_patterns_iff.2 (.inl rfl))
  have hdigit : c.isDigit = false := hfirst (mem_patterns_iff.2 (.inr (.inl rfl)))
  have hspace : isSpace c = false := hfirst (mem_patterns_iff.2 (.inr (.inr (.inl rfl))))
  have hnewline : c ≠ '\n' :=
    of_decide_eq_false (hfirst (mem_patterns_iff.2 (.inr (.inr (.inr (.inl rfl))))))
  have hsymbol : Kind.ofSymbol? c = none := by
    cases hkind : Kind.ofSymbol? c with
    | none => rfl
    | some kind =>
      have hsymbol := Kind.ofSymbol?_eq_some_iff.1 hkind
      have hc := hfirst (mem_patterns_iff.2 (.inr (.inr (.inr (.inr ⟨kind, c, hsymbol, rfl⟩)))))
      simp [Pattern.symbol] at hc
  unfold step
  simp [hrest, hword, hdigit, hspace, hnewline, hsymbol]

theorem exists_takes_of_firstPattern? (file : String)
    (hpattern : firstPattern? cursor.rest = some p) :
    p ∈ patterns ∧ ∃ lexeme next, cursor.Takes file p lexeme next := by
  have hp : p ∈ patterns := List.mem_of_find?_eq_some hpattern
  have hsome : (p.shape.find? cursor.rest).isSome = true := by
    simpa using List.find?_some hpattern
  obtain ⟨lexeme, hfind⟩ := Option.isSome_iff_exists.1 hsome
  exact ⟨hp, lexeme, exists_takes file hp hfind⟩

/-- Everything that a step can do, by the first pattern that fits. -/
theorem step_cases (file : String) (cursor : Cursor) :
    (cursor.rest = [] ∧ cursor.step file = .finished) ∨
    (∃ c rest, cursor.rest = c :: rest ∧ firstPattern? cursor.rest = none ∧
      cursor.step file = .stuck c) ∨
    ∃ p lexeme next, firstPattern? cursor.rest = some p ∧ p ∈ patterns ∧
      cursor.Takes file p lexeme next := by
  cases hpattern : firstPattern? cursor.rest with
  | none =>
    cases hrest : cursor.rest with
    | nil =>
      refine .inl ⟨rfl, ?_⟩
      unfold step
      simp only [hrest]
    | cons c rest => exact .inr (.inl ⟨c, rest, rfl, rfl, step_eq_stuck hrest hpattern⟩)
  | some p =>
    obtain ⟨hp, lexeme, next, htakes⟩ := exists_takes_of_firstPattern? file hpattern
    exact .inr (.inr ⟨p, lexeme, next, rfl, hp, htakes⟩)

/-- A scan goes on only where a pattern fits. -/
theorem takes_of_step {token? : Option Token} (h : cursor.step file = .read token? next) :
    ∃ p lexeme, firstPattern? cursor.rest = some p ∧ cursor.Takes file p lexeme next ∧
      token? = p.handler.token? lexeme ⟨cursor.line, file⟩ := by
  obtain ⟨-, hfinished⟩ | ⟨c, rest, -, -, hstuck⟩ | ⟨p, lexeme, after, hpattern, -, htakes⟩ :=
    step_cases file cursor
  · rw [h] at hfinished
    cases hfinished
  · rw [h] at hstuck
    cases hstuck
  · have hread := htakes.step
    rw [h] at hread
    cases hread
    exact ⟨p, lexeme, hpattern, htakes, rfl⟩

theorem stray_of_step {c : Char} (h : cursor.step file = .stuck c) :
    firstPattern? cursor.rest = none ∧ cursor.rest.head? = some c := by
  obtain ⟨-, hfinished⟩ | ⟨d, rest, hrest, hnone, hstuck⟩ | ⟨p, lexeme, after, -, -, htakes⟩ :=
    step_cases file cursor
  · rw [h] at hfinished
    cases hfinished
  · rw [h] at hstuck
    cases hstuck
    exact ⟨hnone, by rw [hrest]; rfl⟩
  · have hread := htakes.step
    rw [h] at hread
    cases hread

/-- The text ahead is what the offset leaves of the source. -/
def Within (source : String) (cursor : Cursor) : Prop :=
  dropBytes? cursor.offset source.toList = some cursor.rest

/-- The lexer that has come as far as the cursor. -/
def lexer (source file : String) (tokens : List Token) (cursor : Cursor) : Lexer :=
  { source, file, offset := cursor.offset.toUInt64, line := cursor.line, tokens }

namespace Within

theorem ofSource (source : String) : (Cursor.ofSource source).Within source :=
  dropBytes?_eq_some_iff.2 ⟨[], rfl, rfl⟩

theorem offset_add (h : cursor.Within source) :
    cursor.offset + byteSize cursor.rest = source.utf8ByteSize := by
  obtain ⟨before, hsource, hsize⟩ := dropBytes?_eq_some_iff.1 h
  rw [← byteSize_toList, hsource, byteSize_append, hsize]

theorem isValid (h : cursor.Within source) : (String.Pos.Raw.mk cursor.offset).IsValid source :=
  exists_dropBytes?_iff_isValid.1 ⟨_, h⟩

theorem after (h : cursor.Within source) (htakes : cursor.Takes file p lexeme next) :
    next.Within source := by
  obtain ⟨before, hsource, hsize⟩ := dropBytes?_eq_some_iff.1 h
  refine dropBytes?_eq_some_iff.2 ⟨before ++ lexeme, ?_, ?_⟩
  · rw [hsource, htakes.rest, List.append_assoc]
  · rw [byteSize_append, hsize, htakes.offset]

variable (h : cursor.Within source) (hsize : source.utf8ByteSize < UInt64.size) (file : String)
  (tokens : List Token)

include h hsize

/-- The offset of an addressable text has not gone round. -/
theorem toNat_offset : (cursor.lexer source file tokens).offset.toNat = cursor.offset := by
  have hadd := h.offset_add
  exact UInt64.toNat_ofNat_of_lt' (by omega)

theorem remainder? :
    (cursor.lexer source file tokens).remainder? = some (String.ofList cursor.rest) := by
  rw [Window.remainder?, h.toNat_offset hsize]
  exact congrArg (Option.map String.ofList) h

theorem peek? : (cursor.lexer source file tokens).peek? = some cursor.rest.head? := by
  rw [Window.peek?, h.toNat_offset hsize]
  exact congrArg (Option.map List.head?) h

theorem atEnd_iff : (cursor.lexer source file tokens).atEnd = true ↔ cursor.rest = [] := by
  have hadd := h.offset_add
  rw [Window.atEnd, decide_eq_true_eq, h.toNat_offset hsize, ← byteSize_eq_zero_iff]
  change source.utf8ByteSize ≤ cursor.offset ↔ _
  omega

/-- The handler of a fitting pattern goes where the step of the cursor goes. -/
theorem handle? (hp : p ∈ patterns) (htakes : cursor.Takes file p lexeme next) :
    (cursor.lexer source file tokens).handle? p = some (next.lexer source file
      (tokens ++ (p.handler.token? lexeme ⟨cursor.line, file⟩).toList)) := by
  have hfits := fits_of_mem_patterns hp htakes.find?
  rw [Lexer.handle?_eq (h.remainder? hsize file tokens) htakes.find? hfits, lexer, lexer,
    htakes.offset, htakes.line]
  exact congrArg (fun offset => some (Lexer.mk ⟨source, file, offset, _⟩ _))
    (UInt64.ofNat_add _ _).symm

/-- A turn of the lexer is a step of the cursor. -/
theorem turn? :
    (cursor.lexer source file tokens).turn? = some
      (match cursor.step file with
        | .finished => .ended (.ok tokens)
        | .stuck c => .ended (.error ⟨.unexpectedCharacter c, cursor.line, file⟩)
        | .read token? next => .again (next.lexer source file (tokens ++ token?.toList))) := by
  have hend := h.atEnd_iff hsize file tokens
  have hahead := h.remainder? hsize file tokens
  have hpeek := h.peek? hsize file tokens
  unfold Lexer.turn?
  obtain ⟨hrest, hstep⟩ | ⟨c, rest, hrest, hpattern, hstep⟩ |
    ⟨p, lexeme, next, hpattern, hp, htakes⟩ := step_cases file cursor
  · rw [hstep, if_pos (hend.2 hrest)]
    rfl
  · rw [hrest] at hend hahead hpeek hpattern
    rw [hstep, if_neg (by simp [hend])]
    have hposition : (cursor.lexer source file tokens).position = ⟨cursor.line, file⟩ := rfl
    simp [hahead, hpeek, hpattern, hposition]
  · have hne : cursor.rest ≠ [] := by
      simp [htakes.rest, (Shape.find?_eq_some htakes.find?).1]
    have hhandle := h.handle? hsize file tokens hp htakes
    rw [htakes.step, if_neg (by simp [hend, hne])]
    simp [hahead, hpattern, hhandle]

end Within

/-- What the scan gives if it ends at the cursor. -/
def outcome? (file : String) (tokens : List Token) (cursor : Cursor) :
    Option (Except Diagnostic (List Token)) :=
  match cursor.step file with
  | .finished => some (.ok tokens)
  | .stuck c => some (.error ⟨.unexpectedCharacter c, cursor.line, file⟩)
  | .read .. => none

/-- The cursor is between two characters of the text. A step that goes on is by the first pattern
that fits, and passes the bytes of its lexeme; one that is stuck names the character ahead. -/
structure Sound (source file : String) (cursor : Cursor) : Prop where
  offset_le : cursor.offset ≤ source.utf8ByteSize
  isValid : (String.Pos.Raw.mk cursor.offset).IsValid source
  ahead : dropBytes? cursor.offset source.toList = some cursor.rest
  advances : ∀ token? next, cursor.step file = .read token? next → ∃ p lexeme,
    firstPattern? cursor.rest = some p ∧ p.shape.find? cursor.rest = some lexeme ∧
    token? = p.handler.token? lexeme ⟨cursor.line, file⟩ ∧
    0 < byteSize lexeme ∧ next.offset = cursor.offset + byteSize lexeme
  actual : ∀ c, cursor.step file = .stuck c →
    firstPattern? cursor.rest = none ∧ cursor.rest.head? = some c

theorem Within.sound (h : cursor.Within source) (file : String) : cursor.Sound source file where
  offset_le := by
    have hadd := h.offset_add
    omega
  isValid := h.isValid
  ahead := h
  advances token? next hstep := by
    obtain ⟨p, lexeme, hpattern, htakes, htoken⟩ := takes_of_step hstep
    exact ⟨p, lexeme, hpattern, htakes.find?, htoken, htakes.byteSize_pos, htakes.offset⟩
  actual _ hstep := stray_of_step hstep

end Cursor

/-- The cursors of a scan, each with the tokens read before it. -/
inductive Visited (source file : String) : Cursor → List Token → Prop
  | start : Visited source file (Cursor.ofSource source) []
  | next {cursor next : Cursor} {tokens : List Token} {token? : Option Token}
      (h : Visited source file cursor tokens) (hstep : cursor.step file = .read token? next) :
      Visited source file next (tokens ++ token?.toList)

/-- The lexers of the turns. -/
inductive Reached (source file : String) : Lexer → Prop
  | start : Reached source file (Lexer.ofSource source file)
  | next {lexer next : Lexer} (h : Reached source file lexer)
      (hturn : lexer.turn? = some (.again next)) : Reached source file next

/-- The offset is between two characters of the text, so that the text ahead is there and every turn
has an outcome. A handler moves by the size of the lexeme, and a diagnostic names the character
ahead. -/
structure Lexer.Sound (lexer : Lexer) : Prop where
  offset_le : lexer.offset.toNat ≤ lexer.source.utf8ByteSize
  isValid : (String.Pos.Raw.mk lexer.offset.toNat).IsValid lexer.source
  ahead : ∃ rest, lexer.remainder? = some rest ∧ lexer.peek? = some rest.toList.head?
  advances : ∀ rest p, lexer.remainder? = some rest → firstPattern? rest.toList = some p →
    ∃ lexeme next, p.shape.find? rest.toList = some lexeme ∧ lexer.handle? p = some next ∧
      0 < byteSize lexeme ∧ next.offset.toNat = lexer.offset.toNat + byteSize lexeme
  total : ∃ turn, lexer.turn? = some turn
  actual : ∀ d, lexer.turn? = some (.ended (.error d)) →
    ∃ c, lexer.peek? = some (some c) ∧ d = ⟨.unexpectedCharacter c, lexer.position⟩

section

variable {source file : String} {cursor : Cursor} {tokens : List Token} {lexer : Lexer}

theorem Visited.within (h : Visited source file cursor tokens) : cursor.Within source := by
  induction h with
  | start => exact .ofSource source
  | next h hstep ih =>
    obtain ⟨p, lexeme, -, htakes, -⟩ := Cursor.takes_of_step hstep
    exact ih.after htakes

/-- A scan goes from any of its cursors to one where it ends. -/
theorem Visited.exists_outcome (h : Visited source file cursor tokens) {n : Nat}
    (hn : cursor.rest.length ≤ n) :
    ∃ last read, Visited source file last read ∧
      last.outcome? file read = some (match (scanFrom file n cursor).failure? with
        | some d => .error d
        | none => .ok (tokens ++ (scanFrom file n cursor).tokens)) := by
  induction n generalizing cursor tokens with
  | zero =>
    have hnil : cursor.rest = [] := List.eq_nil_of_length_eq_zero (Nat.le_zero.1 hn)
    refine ⟨cursor, tokens, h, ?_⟩
    simp [Cursor.outcome?, Cursor.step, hnil, scanFrom]
  | succ n ih =>
    unfold scanFrom
    cases hstep : cursor.step file with
    | finished => exact ⟨cursor, tokens, h, by simp [Cursor.outcome?, hstep]⟩
    | stuck c => exact ⟨cursor, tokens, h, by simp [Cursor.outcome?, hstep]⟩
    | read token? next =>
      obtain ⟨lexeme, hne, happend, -⟩ := Cursor.step_spec hstep
      have hlength : next.rest.length ≤ n := by
        have hpos := List.length_pos_iff.2 hne
        rw [happend, List.length_append] at hn
        omega
      obtain ⟨last, read, hlast, houtcome⟩ := ih (h.next hstep) hlength
      exact ⟨last, read, hlast, by rw [houtcome, List.append_assoc]⟩

theorem exists_outcome_tokenize (source : String) (file? : Option String) :
    ∃ last read, Visited source (file?.getD shellLabel) last read ∧
      last.outcome? (file?.getD shellLabel) read = some (tokenize source file?) := by
  have hlength : (Cursor.ofSource source).rest.length ≤ source.length :=
    Nat.le_of_eq (String.length_toList ..)
  have hstart : Visited source (file?.getD shellLabel) (Cursor.ofSource source) [] := .start
  exact hstart.exists_outcome hlength

variable (hsize : source.utf8ByteSize < UInt64.size)

include hsize

/-- The lexers are those of the cursors: no turn goes another way. -/
theorem reached_iff :
    Reached source file lexer ↔
      ∃ cursor tokens, Visited source file cursor tokens ∧
        lexer = cursor.lexer source file tokens := by
  constructor
  · intro h
    induction h with
    | start => exact ⟨_, _, .start, rfl⟩
    | @next lexer next h hturn ih =>
      obtain ⟨cursor, tokens, hvisited, rfl⟩ := ih
      rw [hvisited.within.turn? hsize file tokens] at hturn
      cases hstep : cursor.step file with
      | finished => simp [hstep] at hturn
      | stuck c => simp [hstep] at hturn
      | read token? after =>
        simp only [hstep, Option.some.injEq, Lexer.Turn.again.injEq] at hturn
        exact ⟨after, _, hvisited.next hstep, hturn.symm⟩
  · rintro ⟨cursor, tokens, hvisited, rfl⟩
    induction hvisited with
    | start => exact .start
    | @next cursor next tokens token? hvisited hstep ih =>
      refine ih.next ?_
      rw [hvisited.within.turn? hsize file tokens, hstep]

theorem Cursor.Within.sound_lexer (h : cursor.Within source) (file : String)
    (tokens : List Token) : (cursor.lexer source file tokens).Sound where
  offset_le := by
    rw [h.toNat_offset hsize]
    exact (h.sound file).offset_le
  isValid := by
    rw [h.toNat_offset hsize]
    exact h.isValid
  ahead := ⟨_, h.remainder? hsize file tokens, by rw [h.peek? hsize, String.toList_ofList]⟩
  advances rest p hrest hp := by
    rw [h.remainder? hsize] at hrest
    obtain rfl := Option.some.inj hrest
    rw [String.toList_ofList] at hp ⊢
    obtain ⟨hmem, lexeme, next, htakes⟩ := Cursor.exists_takes_of_firstPattern? file hp
    refine ⟨lexeme, _, htakes.find?, h.handle? hsize file tokens hmem htakes,
      htakes.byteSize_pos, ?_⟩
    rw [(h.after htakes).toNat_offset hsize, h.toNat_offset hsize, htakes.offset]
  total := ⟨_, h.turn? hsize file tokens⟩
  actual d hd := by
    rw [h.turn? hsize] at hd
    cases hstep : cursor.step file with
    | finished => simp [hstep] at hd
    | read token? next => simp [hstep] at hd
    | stuck c =>
      simp only [hstep, Option.some.injEq, Lexer.Turn.ended.injEq, Except.error.injEq] at hd
      exact ⟨c, by rw [h.peek? hsize, (Cursor.stray_of_step hstep).2], hd.symm⟩

/-- The turns end where the scan ends, and with the same. -/
theorem Cursor.Within.turn?_of_outcome? {result : Except Diagnostic (List Token)}
    (h : cursor.Within source) (hresult : cursor.outcome? file tokens = some result) :
    (cursor.lexer source file tokens).turn? = some (.ended result) := by
  rw [h.turn? hsize]
  unfold Cursor.outcome? at hresult
  split at hresult
  · cases hresult
    rfl
  · cases hresult
    rfl
  · cases hresult

end

/-- At every cursor of a scan the bytes behind it are whole characters, and where a pattern fits the
scan moves on by the bytes of the lexeme, which are at least one; so it comes to an end, with its
tokens or at the character that is there. A lexer that has only the count of the bytes, in a machine
word, goes through the same places of any text that the word can address: the text ahead is there in
every turn, the handlers move by the bytes of the lexeme, and the turns end as the scan does. -/
theorem tokenize_on_characters (source : String) (file? : Option String) :
    let file := file?.getD shellLabel
    (∀ cursor tokens, Visited source file cursor tokens → cursor.Sound source file) ∧
    (∃ last tokens, Visited source file last tokens ∧
      last.outcome? file tokens = some (tokenize source file?)) ∧
    (source.utf8ByteSize < UInt64.size →
      (∀ lexer, Reached source file lexer → lexer.Sound) ∧
      (∀ lexer, Reached source file lexer ↔ ∃ cursor tokens,
        Visited source file cursor tokens ∧ lexer = cursor.lexer source file tokens) ∧
      ∃ last, Reached source file last ∧ last.turn? = some (.ended (tokenize source file?))) := by
  intro file
  obtain ⟨last, tokens, hlast, houtcome⟩ := exists_outcome_tokenize source file?
  refine ⟨fun cursor tokens h => h.within.sound file, ⟨last, tokens, hlast, houtcome⟩,
    fun hsize => ⟨fun lexer h => ?_, fun lexer => reached_iff hsize, ?_⟩⟩
  · obtain ⟨cursor, tokens, hvisited, rfl⟩ := (reached_iff hsize).1 h
    exact hvisited.within.sound_lexer hsize file tokens
  · exact ⟨last.lexer source file tokens, (reached_iff hsize).2 ⟨last, tokens, hlast, rfl⟩,
      hlast.within.turn?_of_outcome? hsize houtcome⟩

/-- The character behind the blank has two bytes, and is reported whole. -/
theorem tokenize_on_characters_accent :
    "x é".utf8ByteSize < UInt64.size ∧
      ∃ last, Reached "x é" "shell" last ∧ last.Sound ∧ last.peek? = some (some 'é') ∧
        last.turn? = some (.ended (.error ⟨.unexpectedCharacter 'é', 1, "shell"⟩)) := by
  have hsize : "x é".utf8ByteSize < UInt64.size := by decide
  obtain ⟨hsound, -, last, hlast, hturn⟩ := (tokenize_on_characters "x é" none).2.2 hsize
  have htokens : tokenize "x é" none = .error ⟨.unexpectedCharacter 'é', 1, "shell"⟩ := rfl
  rw [htokens] at hturn
  obtain ⟨c, hpeek, hd⟩ := (hsound last hlast).actual _ hturn
  obtain rfl : 'é' = c := Fault.unexpectedCharacter.inj (congrArg Diagnostic.fault hd)
  exact ⟨hsize, last, hlast, hsound last hlast, hpeek, hturn⟩

end Scopewise.Token
