import Scopewise.Proofs.Print

namespace Scopewise

open Grammar Token

namespace Text

theorem toList_toString {value : Int64} (h : 0 ≤ value.toInt) :
    (toString value).toList = Nat.toDigits 10 value.toInt.toNat := by
  obtain ⟨n, hn⟩ := Int.eq_ofNat_of_zero_le h
  change (toString value.toInt).toList = _
  rw [hn]
  exact Nat.toList_repr

theorem isNumeral_toString {value : Int64} (h : 0 ≤ value.toInt) :
    isNumeral (toString value).toList = true := by
  rw [toList_toString h, isNumeral, Bool.and_eq_true, List.all_eq_true]
  constructor
  · simp
  · intro c hc
    exact Nat.isDigit_of_mem_toDigits (by decide) (by decide) hc

/-- A numeral has no sign. -/
theorem readSigned?_of_isNumeral {digits : List Char} (h : isNumeral digits = true) :
    readSigned? digits = some (Int.ofNat (Nat.ofDigitChars 10 digits 0)) := by
  rw [isNumeral, Bool.and_eq_true] at h
  have hne : digits ≠ [] := by simpa using h.1
  have hread : readDigits? digits = some (Nat.ofDigitChars 10 digits 0) := by
    rw [readDigits?, if_pos ⟨hne, h.2⟩]
  have hhead : ∀ c ∈ digits.head?, c.isDigit = true := fun c hc =>
    List.all_eq_true.1 h.2 c (List.mem_of_mem_head? hc)
  unfold readSigned?
  split
  · exact absurd (hhead _ rfl) (by decide)
  · exact absurd (hhead _ rfl) (by decide)
  · rw [hread]
    rfl

theorem readInt64?_toString {value : Int64} (h : 0 ≤ value.toInt) :
    readInt64? (toString value) = some value := by
  have hvalue : readSigned? (toString value).toList = some value.toInt := by
    rw [readSigned?_of_isNumeral (isNumeral_toString h), toList_toString h,
      Nat.ofDigitChars_ten_toDigits]
    exact congrArg some (Int.toNat_of_nonneg h)
  rw [readInt64?, hvalue]
  have hrange := And.intro (Int64.le_toInt value) value.toInt_le
  simp only [Int64.toInt_minValue, hrange, and_self, if_true, Int64.ofInt_toInt]

theorem nonneg_of_readInt64? {text : String} {value : Int64} (h : isNumeral text.toList = true)
    (hvalue : readInt64? text = some value) : 0 ≤ value.toInt := by
  rw [readInt64?, readSigned?_of_isNumeral h] at hvalue
  simp only at hvalue
  split at hvalue
  · next hrange =>
    obtain rfl := Option.some.inj hvalue
    rw [Int64.toInt_minValue, Int64.toInt_maxValue] at hrange
    rw [Int64.toInt_ofInt_of_le hrange.1 (by omega)]
    exact Int.natCast_nonneg _
  · cases hvalue

end Text

namespace Token

theorem Kind.wellFormed_lexeme {kind : Kind} (h : kind.symbol?.isSome = true) :
    kind.lexeme.WellFormed := by
  obtain ⟨c, hc⟩ := Option.isSome_iff_exists.1 h
  constructor
  · intro hkind
    change kind = .newline at hkind
    rw [hkind] at hc
    cases hc
  · change kind.admits (String.ofList kind.symbol?.toList).toList = true
    rw [hc]
    exact (Kind.admits_symbol_iff hc).2 (by simp)

theorem Lexeme.wellFormed_word {text : String} (h : isName text.toList = true) :
    (Lexeme.word text).WellFormed :=
  ⟨by simp [Lexeme.word], h⟩

end Token

theorem PrefixOp.isSome_symbol? (op : PrefixOp) : op.kind.symbol?.isSome = true := by
  cases op <;> rfl

theorem BinaryOp.isSome_symbol? (op : BinaryOp) : op.kind.symbol?.isSome = true := by
  cases op <;> rfl

namespace Expr

theorem wellFormed_grouped {needed : Bool} {ls : List Lexeme} (h : ∀ l ∈ ls, l.WellFormed) :
    ∀ l ∈ grouped needed ls, l.WellFormed := by
  cases needed with
  | false => exact h
  | true =>
    rw [grouped, if_pos rfl, List.cons_append, List.forall_mem_cons, List.forall_mem_append,
      List.forall_mem_singleton]
    exact ⟨Kind.wellFormed_lexeme rfl, h, Kind.wellFormed_lexeme rfl⟩

mutual

theorem wellFormed_lexemes : (e : Expr) → e.writable = true → ∀ l ∈ e.lexemes, l.WellFormed
  | .integer value, h => by
    simp only [writable, Bool.and_eq_true, decide_eq_true_eq] at h
    rw [lexemes, List.forall_mem_singleton]
    exact ⟨by simp, Text.isNumeral_toString h.1⟩
  | .variable name, h => by
    rw [lexemes, List.forall_mem_singleton]
    exact Lexeme.wellFormed_word h
  | .call name args, h => by
    rw [writable, Bool.and_eq_true] at h
    rw [lexemes, List.forall_mem_cons, List.forall_mem_cons]
    exact ⟨Lexeme.wellFormed_word h.1, Kind.wellFormed_lexeme rfl,
      wellFormed_argLexemes args h.2⟩
  | .unary op operand, h => by
    rw [lexemes, List.forall_mem_cons]
    exact ⟨Kind.wellFormed_lexeme op.isSome_symbol?,
      wellFormed_grouped (wellFormed_lexemes operand h)⟩
  | .binary op left right, h => by
    rw [writable, Bool.and_eq_true] at h
    rw [lexemes, List.forall_mem_append, List.forall_mem_cons]
    exact ⟨wellFormed_grouped (wellFormed_lexemes left h.1),
      Kind.wellFormed_lexeme op.isSome_symbol?, wellFormed_grouped (wellFormed_lexemes right h.2)⟩

theorem wellFormed_argLexemes : (es : List Expr) → writableAll es = true →
    ∀ l ∈ argLexemes es, l.WellFormed
  | [], _ => by
    rw [argLexemes, List.forall_mem_singleton]
    exact Kind.wellFormed_lexeme rfl
  | e :: es, h => by
    rw [writableAll, Bool.and_eq_true] at h
    rw [argLexemes, List.forall_mem_append]
    exact ⟨wellFormed_lexemes e h.1, wellFormed_moreLexemes es h.2⟩

theorem wellFormed_moreLexemes : (es : List Expr) → writableAll es = true →
    ∀ l ∈ moreLexemes es, l.WellFormed
  | [], _ => by
    rw [moreLexemes, List.forall_mem_singleton]
    exact Kind.wellFormed_lexeme rfl
  | e :: es, h => by
    rw [writableAll, Bool.and_eq_true] at h
    rw [moreLexemes, List.cons_append, List.forall_mem_cons, List.forall_mem_append]
    exact ⟨Kind.wellFormed_lexeme rfl, wellFormed_lexemes e h.1, wellFormed_moreLexemes es h.2⟩

end

end Expr

namespace Param

theorem wellFormed_lexemes {p : Param} (h : p.writable = true) :
    ∀ l ∈ p.lexemes, l.WellFormed := by
  rw [writable, Bool.and_eq_true] at h
  rw [lexemes, List.forall_mem_cons, List.forall_mem_cons, List.forall_mem_singleton]
  exact ⟨Lexeme.wellFormed_word h.1, Kind.wellFormed_lexeme rfl, Lexeme.wellFormed_word h.2⟩

theorem wellFormed_listLexemes : {ps : List Param} → ps.all writable = true →
    ∀ l ∈ listLexemes ps, l.WellFormed
  | [], _ => by
    rw [listLexemes, List.forall_mem_singleton]
    exact Kind.wellFormed_lexeme rfl
  | [p], h => by
    rw [List.all_cons, Bool.and_eq_true] at h
    rw [listLexemes, List.forall_mem_append, List.forall_mem_singleton]
    exact ⟨wellFormed_lexemes h.1, Kind.wellFormed_lexeme rfl⟩
  | p :: q :: ps, h => by
    rw [List.all_cons, Bool.and_eq_true] at h
    rw [listLexemes, List.forall_mem_append, List.forall_mem_cons]
    exact ⟨wellFormed_lexemes h.1, Kind.wellFormed_lexeme rfl, wellFormed_listLexemes h.2⟩

end Param

namespace Stmt

mutual

theorem wellFormed_lexemes : (s : Stmt) → s.writable = true → ∀ l ∈ s.lexemes, l.WellFormed
  | .function name params type body, h => by
    simp only [writable, Bool.and_eq_true] at h
    have htype : isName type.name.toList = true := by cases type <;> decide
    simp only [lexemes, List.cons_append, List.append_assoc, List.forall_mem_cons,
      List.forall_mem_append]
    exact ⟨Lexeme.wellFormed_word (by decide), Lexeme.wellFormed_word h.1.1,
      Kind.wellFormed_lexeme rfl, Param.wellFormed_listLexemes h.1.2, Kind.wellFormed_lexeme rfl,
      Lexeme.wellFormed_word htype, Kind.wellFormed_lexeme rfl, wellFormed_lexemesAll body h.2,
      Kind.wellFormed_lexeme rfl, Kind.wellFormed_lexeme rfl, by simp⟩
  | .binding mutability name value, h => by
    rw [writable, Bool.and_eq_true] at h
    have hword : isName mutability.keyword.toList = true := by cases mutability <;> decide
    simp only [lexemes, List.cons_append, List.forall_mem_cons, List.forall_mem_append]
    exact ⟨Lexeme.wellFormed_word hword, Lexeme.wellFormed_word h.1, Kind.wellFormed_lexeme rfl,
      value.wellFormed_lexemes h.2, Kind.wellFormed_lexeme rfl, by simp⟩
  | .returning value, h => by
    simp only [lexemes, List.cons_append, List.forall_mem_cons, List.forall_mem_append]
    exact ⟨Lexeme.wellFormed_word (by decide), value.wellFormed_lexemes h,
      Kind.wellFormed_lexeme rfl, by simp⟩
  | .bare value, h => by
    rw [lexemes, List.forall_mem_append, List.forall_mem_singleton]
    exact ⟨value.wellFormed_lexemes h, Kind.wellFormed_lexeme rfl⟩

theorem wellFormed_lexemesAll : (ss : List Stmt) → writableAll ss = true →
    ∀ l ∈ lexemesAll ss, l.WellFormed
  | [], _ => by simp [lexemesAll]
  | s :: ss, h => by
    rw [writableAll, Bool.and_eq_true] at h
    rw [lexemesAll, List.forall_mem_append]
    exact ⟨wellFormed_lexemes s h.1, wellFormed_lexemesAll ss h.2⟩

end

end Stmt

namespace Expr

variable {file : String} {e : Expr} {ls : List Lexeme} {n : Nat}

/-- The lexemes derive the expression at the level. -/
def Prints (file : String) (level : Level) (ls : List Lexeme) (e : Expr) (n : Nat) : Prop :=
  ∃ p, Derives id level (ls.map (Lexeme.token file)) p n ∧ p.tree? id = some e

theorem Prints.loosen {level : Level} (h : Prints file level ls e n) (level' : Level)
    (hle : level'.rank ≤ level.rank) : Prints file level' ls e n := by
  obtain ⟨p, hp, htree⟩ := h
  exact ⟨p, hp.loosen level' hle, htree⟩

/-- Where parentheses are needed they cost a level; where not, the expression stands as it is. -/
theorem Prints.within (h : Prints file e.level ls e n) (required : Level) :
    Prints file required (grouped (e.loose required) ls) e
      (n + (e.loose required).toNat) := by
  by_cases hloose : e.level.rank < required.rank
  · have htrue : e.loose required = true := by simpa [loose] using hloose
    obtain ⟨p, hp, htree⟩ := h
    have hsum : Derives id .sum (ls.map (Lexeme.token file)) p n := hp.loosen .sum (Nat.zero_le _)
    have hgroup : Derives id .primary ((grouped true ls).map (Lexeme.token file)) p (n + 1) := by
      have := Derives.group (l := Kind.openParen.lexeme.token file)
        (r := Kind.closeParen.lexeme.token file) rfl hsum rfl
      simpa [grouped] using this
    rw [htrue]
    exact ⟨p, hgroup.loosen required (by cases required <;> decide), htree⟩
  · have hfalse : e.loose required = false := by simpa [loose] using hloose
    rw [hfalse]
    exact h.loosen required (Nat.not_lt.1 hloose)

mutual

theorem prints (file : String) : (e : Expr) → e.writable = true →
    Prints file e.level e.lexemes e e.nesting
  | .integer value, h => by
    simp only [writable, Bool.and_eq_true, decide_eq_true_eq] at h
    refine ⟨.integer (Lexeme.token file ⟨.integer, toString value⟩), .integer rfl, ?_⟩
    rw [Phrase.tree?]
    exact congrArg _ (Text.readInt64?_toString h.1)
  | .variable name, _ => ⟨.variable ((Lexeme.word name).token file), .variable rfl, rfl⟩
  | .call name [], _ =>
    ⟨.call ((Lexeme.word name).token file) [], .callNil rfl rfl rfl, rfl⟩
  | .call name (e :: es), h => by
    simp only [writable, writableAll, Bool.and_eq_true] at h
    obtain ⟨p, hp, htree⟩ := (prints file e h.2.1).loosen .sum (Nat.zero_le _)
    obtain ⟨ps, hps, htrees⟩ := prints_more file es h.2.2 hp htree
    refine ⟨.call ((Lexeme.word name).token file) (p :: ps), ?_, ?_⟩
    · rw [lexemes, argLexemes, nesting, nestingAll, List.map_cons, List.map_cons, List.map_append]
      exact .call rfl rfl hps
    · rw [Phrase.tree?, htrees]
      rfl
  | .unary op operand, h => by
    obtain ⟨p, hp, htree⟩ := (prints file operand h).within .unary
    refine ⟨.unary op p, ?_, by simp [Phrase.tree?, htree]⟩
    exact .sign rfl hp
  | .binary op left right, h => by
    rw [writable, Bool.and_eq_true] at h
    obtain ⟨l, hl, hleft⟩ := (prints file left h.1).within op.level
    obtain ⟨r, hr, hright⟩ := (prints file right h.2).within op.level.next
    refine ⟨.binary op l r, ?_, by simp [Phrase.tree?, hleft, hright]⟩
    rw [lexemes, List.map_append, List.map_cons]
    exact .binary rfl hl rfl hr

/-- Each argument closes the one before it with a comma, the last with a parenthesis. -/
theorem prints_more (file : String) : (es : List Expr) → writableAll es = true →
    ∀ {us : List Token} {p : Phrase Token} {e : Expr} {n : Nat}, Derives id .sum us p n →
    p.tree? id = some e →
    ∃ ps, Arguments id (us ++ (moreLexemes es).map (Lexeme.token file)) (p :: ps)
        (max (n + 1) (nestingAll es)) ∧ Phrase.trees? id (p :: ps) = some (e :: es)
  | [], _ => by
    intro hp htree
    refine ⟨[], ?_, by simp [Phrase.trees?, htree]⟩
    rw [nestingAll, Nat.max_zero]
    exact .last hp rfl
  | e' :: es, h => by
    intro hp htree
    rw [writableAll, Bool.and_eq_true] at h
    obtain ⟨p', hp', htree'⟩ := (prints file e' h.1).loosen .sum (Nat.zero_le _)
    obtain ⟨ps, hps, htrees⟩ := prints_more file es h.2 hp' htree'
    refine ⟨p' :: ps, ?_, by rw [Phrase.trees?, htrees, htree]; rfl⟩
    rw [moreLexemes, List.cons_append, List.map_cons, List.map_append, nestingAll]
    exact .cons hp rfl hps

end

end Expr

namespace Param

theorem exists_parameters (file : String) : (p : Param) → (ps : List Param) →
    ∃ qs, Parameters id ((listLexemes (p :: ps)).map (Lexeme.token file)) qs ∧
      qs.map (Clause.param id) = p :: ps
  | p, [] =>
    ⟨[((Lexeme.word p.name).token file, (Lexeme.word p.type).token file)],
      .last rfl rfl rfl rfl, rfl⟩
  | p, q :: ps => by
    obtain ⟨qs, hqs, hparams⟩ := exists_parameters file q ps
    refine ⟨((Lexeme.word p.name).token file, (Lexeme.word p.type).token file) :: qs,
      .cons rfl rfl rfl rfl hqs, ?_⟩
    rw [List.map_cons, hparams]
    rfl

theorem exists_signature (file : String) (ps : List Param) :
    ∃ qs, Signature id ((Kind.openParen.lexeme :: listLexemes ps).map (Lexeme.token file)) qs ∧
      qs.map (Clause.param id) = ps := by
  cases ps with
  | nil => exact ⟨[], .nil rfl rfl, rfl⟩
  | cons p ps =>
    obtain ⟨qs, hqs, hparams⟩ := exists_parameters file p ps
    exact ⟨qs, .params rfl hqs, hparams⟩

end Param

namespace Stmt

/-- The lexemes, put in front of a body, derive the statement in front of it. -/
def Prints (file : String) (s : Stmt) : Prop :=
  ∃ c, c.tree? id = some s ∧ ∀ ⦃vs : List Token⦄ ⦃cs : List (Clause Token)⦄ ⦃m : Nat⦄,
    Body id vs cs m →
      Body id (s.lexemes.map (Lexeme.token file) ++ vs) (c :: cs) (max s.nesting m)

theorem prints_bare (file : String) {e : Expr} (h : e.writable = true)
    (hbegins : e.beginsBare = true) : Prints file (.bare e) := by
  obtain ⟨p, hp, htree⟩ := (e.prints file h).loosen .sum (Nat.zero_le _)
  obtain ⟨l, ls, hls, hl, hword⟩ : ∃ l ls, e.lexemes = l :: ls ∧ l.kind = .identifier ∧
      l.text ∉ keywords := by
    rw [Expr.beginsBare] at hbegins
    cases hls : e.lexemes with
    | nil => simp [hls] at hbegins
    | cons l ls => exact ⟨l, ls, rfl, by simpa [hls] using hbegins⟩
  refine ⟨.bare p, by simp [Clause.tree?, htree], fun vs cs m hbody => ?_⟩
  rw [hls, List.map_cons] at hp
  -- the semicolon behind a bare expression is an empty statement
  have hstmt := Body.cons (.bare hl hword hp) (.semicolon (t := Kind.semicolon.lexeme.token file)
    rfl hbody)
  simpa [lexemes, hls, nesting] using hstmt

mutual

theorem prints (file : String) : (s : Stmt) → s.writable = true → s.begins = true →
    Prints file s
  | .function name params type body, h, hbegins => by
    simp only [writable, Bool.and_eq_true] at h
    obtain ⟨cs, hcs, htrees⟩ := printsAll file body h.2 hbegins
    obtain ⟨qs, hqs, hparams⟩ := Param.exists_signature file params
    have htype : ReturnType.ofName? type.name = some type := by cases type <;> rfl
    refine ⟨.function ((Lexeme.word name).token file) qs ((Lexeme.word type.name).token file) cs,
      ?_, fun vs ds m hbody => ?_⟩
    · simp [Clause.tree?, Lexeme.token, Lexeme.word, hparams, htype, htrees]
    · let token := Lexeme.token file
      have hstmt : Statement id
          (token (.word "fn") :: token (.word name) ::
            (Kind.openParen.lexeme :: Param.listLexemes params).map token ++
            token Kind.colon.lexeme :: token (.word type.name) :: token Kind.openCurly.lexeme ::
              (lexemesAll body).map token ++
            [token Kind.closeCurly.lexeme, token Kind.semicolon.lexeme])
          (.function (token (.word name)) qs (token (.word type.name)) cs)
          (nestingAll body + 1) := .function rfl rfl hqs rfl rfl rfl hcs rfl rfl
      have hfront := Body.cons hstmt hbody
      simpa [lexemes, nesting, token] using hfront
  | .binding mutability name value, h, _ => by
    rw [writable, Bool.and_eq_true] at h
    obtain ⟨p, hp, htree⟩ := (value.prints file h.2).loosen .sum (Nat.zero_le _)
    refine ⟨.binding mutability ((Lexeme.word name).token file) p, ?_, fun vs cs m hbody => ?_⟩
    · rw [Clause.tree?, htree]
      rfl
    · have hlead : ((Lexeme.word mutability.keyword).token file).isWord mutability.keyword =
          true := by
        simp [Token.isWord, Lexeme.token, Lexeme.word]
      have hstmt : Statement id ((lexemes (.binding mutability name value)).map (Lexeme.token file))
          (.binding mutability ((Lexeme.word name).token file) p) (value.nesting + 1) := by
        rw [lexemes, List.map_append, List.map_cons, List.map_cons, List.map_cons]
        exact .binding hlead rfl rfl hp rfl
      exact .cons hstmt hbody
  | .returning value, h, _ => by
    obtain ⟨p, hp, htree⟩ := (value.prints file h).loosen .sum (Nat.zero_le _)
    refine ⟨.returning p, by simp [Clause.tree?, htree], fun vs cs m hbody => ?_⟩
    have hstmt : Statement id ((lexemes (.returning value)).map (Lexeme.token file))
        (.returning p) (value.nesting + 1) := by
      rw [lexemes, List.map_append, List.map_cons]
      exact .returning rfl hp rfl
    exact .cons hstmt hbody
  | .bare value, h, hbegins => prints_bare file h hbegins

theorem printsAll (file : String) : (ss : List Stmt) → writableAll ss = true →
    beginsAll ss = true →
    ∃ cs, Body id ((lexemesAll ss).map (Lexeme.token file)) cs (nestingAll ss) ∧
      Clause.trees? id cs = some ss
  | [], _, _ => ⟨[], .nil, rfl⟩
  | s :: ss, h, hbegins => by
    rw [writableAll, Bool.and_eq_true] at h
    rw [beginsAll, Bool.and_eq_true] at hbegins
    obtain ⟨c, htree, hc⟩ := prints file s h.1 hbegins.1
    obtain ⟨cs, hcs, htrees⟩ := printsAll file ss h.2 hbegins.2
    refine ⟨c :: cs, ?_, by simp [Clause.trees?, htree, htrees]⟩
    rw [lexemesAll, List.map_append, nestingAll]
    exact hc hcs

end

end Stmt

namespace Grammar

/-- The tokens are written as their kinds are. -/
def Written (us : List Token) : Prop :=
  ∀ t ∈ us, t.kind.admits t.value.toList = true

theorem Written.left {us vs : List Token} (h : Written (us ++ vs)) : Written us :=
  fun t ht => h t (List.mem_append_left vs ht)

theorem Written.right {us vs : List Token} (h : Written (us ++ vs)) : Written vs :=
  fun t ht => h t (List.mem_append_right us ht)

theorem Written.tail {t : Token} {us : List Token} (h : Written (t :: us)) : Written us :=
  fun u hu => h u (List.mem_cons_of_mem t hu)

theorem Written.isName {t : Token} {us : List Token} (h : Written (t :: us))
    (ht : t.kind = .identifier) : isName t.value.toList = true := by
  have hadmits := h t List.mem_cons_self
  rw [ht] at hadmits
  exact hadmits

/-- The expression can be written where the grammar has the level, within `n` levels of nesting. -/
def Holds (level : Level) (e : Expr) (n : Nat) : Prop :=
  e.writable = true ∧ e.nesting + (e.loose level).toNat ≤ n

theorem Holds.nesting_le {level : Level} {e : Expr} {n : Nat} (h : Holds level e n) :
    e.nesting ≤ n :=
  Nat.le_trans (Nat.le_add_right _ _) h.2

/-- A looser level needs no more parentheses. -/
theorem Holds.lift {level : Level} {e : Expr} {n : Nat} (h : Holds level.next e n) :
    Holds level e n := by
  have hrank := level.rank_le_rank_next
  have hloose : (e.loose level).toNat ≤ (e.loose level.next).toNat := by
    by_cases hlt : e.level.rank < level.rank
    · have hlt' : e.level.rank < level.next.rank := by omega
      simp [Expr.loose, hlt, hlt']
    · simp [Expr.loose, hlt]
  exact ⟨h.1, by have := h.2; omega⟩

/-- A pair of parentheses that need not be there still makes a level. -/
theorem Holds.group {e : Expr} {n : Nat} (h : Holds .sum e n) : Holds .primary e (n + 1) := by
  have hloose : (e.loose .primary).toNat ≤ 1 := Bool.toNat_le _
  have hle := h.nesting_le
  exact ⟨h.1, by omega⟩

theorem Holds.of_level {level : Level} {e : Expr} {n : Nat} (hlevel : level.rank ≤ e.level.rank)
    (h : e.writable = true) (hn : e.nesting ≤ n) : Holds level e n := by
  have hloose : e.loose level = false := by simpa [Expr.loose] using hlevel
  exact ⟨h, by rw [hloose]; exact hn⟩

mutual

theorem Derives.holds {level : Level} {us : List Token} {p : Phrase Token} {n : Nat} {e : Expr} :
    Derives id level us p n → Written us → p.tree? id = some e → Holds level e n
  | .integer (t := t) ht, hus, htree => by
    obtain ⟨value, hvalue, rfl⟩ := Option.map_eq_some_iff.1 htree
    have hadmits := hus t List.mem_cons_self
    change t.kind = .integer at ht
    rw [ht] at hadmits
    have hnonneg := Text.nonneg_of_readInt64? hadmits hvalue
    refine Holds.of_level (Nat.le_refl _) ?_ (Nat.le_refl _)
    simp only [Expr.writable, Bool.and_eq_true, decide_eq_true_eq]
    exact ⟨hnonneg, value.toInt_le⟩
  | .variable ht, hus, htree => by
    obtain rfl := Option.some.inj htree
    exact Holds.of_level (Nat.le_refl _) (hus.isName ht) (Nat.le_refl _)
  | .callNil ht _ _, hus, htree => by
    obtain rfl := Option.some.inj htree
    refine Holds.of_level (Nat.le_refl _) ?_ (Nat.le_refl _)
    rw [Expr.writable, Bool.and_eq_true]
    exact ⟨hus.isName ht, rfl⟩
  | .call ht _ hargs, hus, htree => by
    obtain ⟨es, hes, rfl⟩ := Option.map_eq_some_iff.1 htree
    obtain ⟨hwritable, hnesting⟩ := hargs.holds hus.tail.tail hes
    refine Holds.of_level (Nat.le_refl _) ?_ hnesting
    rw [Expr.writable, Bool.and_eq_true]
    exact ⟨hus.isName ht, hwritable⟩
  | .group _ he _, hus, htree => (he.holds hus.left.tail htree).group
  | .sign _ he, hus, htree => by
    obtain ⟨operand, hoperand, rfl⟩ := Option.map_eq_some_iff.1 htree
    obtain ⟨hwritable, hnesting⟩ := he.holds hus.tail hoperand
    exact Holds.of_level (Nat.le_refl _) hwritable (Nat.succ_le_succ hnesting)
  | .lift he, hus, htree => (he.holds hus htree).lift
  | .binary hop hl _ hr, hus, htree => by
    obtain ⟨left, hleft, right, hright, rfl⟩ := Phrase.tree?_binary_eq_some_iff.1 htree
    obtain ⟨hwritable, hnesting⟩ := hl.holds hus.left hleft
    obtain ⟨hwritable', hnesting'⟩ := hr.holds hus.right.tail hright
    subst hop
    refine Holds.of_level (Nat.le_refl _) ?_ ?_
    · rw [Expr.writable, hwritable, hwritable']
      rfl
    · rw [Expr.nesting]
      omega

theorem Arguments.holds {us : List Token} {ps : List (Phrase Token)} {n : Nat}
    {es : List Expr} : Arguments id us ps n → Written us → Phrase.trees? id ps = some es →
    Expr.writableAll es = true ∧ Expr.nestingAll es ≤ n
  | .last he _, hus, htrees => by
    obtain ⟨e, htree, _, hnil, rfl⟩ := Phrase.trees?_cons_eq_some_iff.1 htrees
    obtain rfl := Option.some.inj hnil
    have hholds := he.holds hus.left htree
    have hle := hholds.nesting_le
    refine ⟨by rw [Expr.writableAll, hholds.1]; rfl, ?_⟩
    rw [Expr.nestingAll, Expr.nestingAll]
    omega
  | .cons he _ hes, hus, htrees => by
    obtain ⟨e, htree, es, htrees', rfl⟩ := Phrase.trees?_cons_eq_some_iff.1 htrees
    have hholds := he.holds hus.left htree
    have hle := hholds.nesting_le
    obtain ⟨hwritable, hnesting⟩ := hes.holds hus.right.tail htrees'
    refine ⟨by rw [Expr.writableAll, hholds.1, hwritable]; rfl, ?_⟩
    rw [Expr.nestingAll]
    omega

end

/-- What begins with an identifier has no parentheses around its first operand, and neither has its
print. -/
theorem Derives.head_lexeme {level : Level} {us : List Token} {p : Phrase Token} {n : Nat}
    {e : Expr} {t : Token} (ht : t.kind = .identifier) :
    Derives id level us p n → us.head? = some t → p.tree? id = some e →
    level.rank ≤ e.level.rank ∧ e.lexemes.head? = some (.word t.value)
  | .integer hu, hhead, _ => by
    obtain rfl := Option.some.inj hhead
    exact absurd (hu.symm.trans ht) (by decide)
  | .variable _, hhead, htree => by
    obtain rfl := Option.some.inj hhead
    obtain rfl := Option.some.inj htree
    exact ⟨Nat.le_refl _, rfl⟩
  | .callNil _ _ _, hhead, htree => by
    obtain rfl := Option.some.inj hhead
    obtain rfl := Option.some.inj htree
    exact ⟨Nat.le_refl _, rfl⟩
  | .call _ _ _, hhead, htree => by
    obtain rfl := Option.some.inj hhead
    obtain ⟨es, _, rfl⟩ := Option.map_eq_some_iff.1 htree
    exact ⟨Nat.le_refl _, rfl⟩
  | .group hu _ _, hhead, _ => by
    obtain rfl := Option.some.inj hhead
    exact absurd (hu.symm.trans ht) (by decide)
  | .sign hu _, hhead, _ => by
    obtain rfl := Option.some.inj hhead
    exact absurd (hu.symm.trans ht) (PrefixOp.kind_ne_identifier _)
  | .lift he, hhead, htree => by
    obtain ⟨hrank, hlexeme⟩ := he.head_lexeme ht hhead htree
    exact ⟨Nat.le_trans (Level.rank_le_rank_next _) hrank, hlexeme⟩
  | .binary hop hl _ _, hhead, htree => by
    obtain ⟨left, hleft, right, _, rfl⟩ := Phrase.tree?_binary_eq_some_iff.1 htree
    have hne := List.ne_nil_of_length_pos hl.length_pos
    rw [List.head?_append, Option.or_of_isSome (List.isSome_head?.2 hne)] at hhead
    obtain ⟨hrank, hlexeme⟩ := hl.head_lexeme ht hhead hleft
    subst hop
    refine ⟨Nat.le_refl _, ?_⟩
    rw [Expr.lexemes, Expr.grouped, if_neg (by simpa [Expr.loose] using hrank), List.head?_append,
      hlexeme]
    rfl

theorem Parameters.writable {us : List Token} {ps : List (Token × Token)}
    (h : Parameters id us ps) (hus : Written us) :
    (ps.map (Clause.param id)).all Param.writable = true := by
  induction h with
  | last hname _ htype _ =>
    simp only [List.map_cons, List.map_nil, List.all_cons, List.all_nil, Bool.and_true,
      Param.writable, Bool.and_eq_true]
    exact ⟨hus.isName hname, hus.tail.tail.isName htype⟩
  | cons hname _ htype _ _ ih =>
    simp only [List.map_cons, List.all_cons, Param.writable, Bool.and_eq_true]
    exact ⟨⟨hus.isName hname, hus.tail.tail.isName htype⟩, ih hus.tail.tail.tail.tail⟩

theorem Signature.writable {us : List Token} {ps : List (Token × Token)}
    (h : Signature id us ps) (hus : Written us) :
    (ps.map (Clause.param id)).all Param.writable = true := by
  cases h with
  | nil => rfl
  | params _ hps => exact hps.writable hus.tail

mutual

theorem Statement.printable {us : List Token} {c : Clause Token} {n : Nat} {s : Stmt} :
    Statement id us c n → Written us → c.tree? id = some s →
    s.writable = true ∧ s.begins = true ∧ s.nesting ≤ n
  | .function _ hname hps _ _ _ hbody _ _, hus, htree => by
    obtain ⟨returnType, _, trees, htrees, rfl⟩ := Clause.tree?_function_eq_some_iff.1 htree
    have hlead := hus.left.left.tail
    obtain ⟨hwritable, hbegins, hnesting⟩ := hbody.printable hus.left.right.tail.tail.tail htrees
    refine ⟨?_, hbegins, Nat.succ_le_succ hnesting⟩
    rw [Stmt.writable, hwritable, hps.writable hlead.tail, Bool.and_true, Bool.and_true]
    exact hlead.isName hname
  | .binding _ hname _ he _, hus, htree => by
    obtain ⟨value, hvalue, rfl⟩ := Option.map_eq_some_iff.1 htree
    have hholds := he.holds hus.left.tail.tail.tail hvalue
    refine ⟨?_, rfl, Nat.succ_le_succ hholds.nesting_le⟩
    rw [Stmt.writable, hholds.1, Bool.and_true]
    exact hus.tail.isName hname
  | .returning _ he _, hus, htree => by
    obtain ⟨value, hvalue, rfl⟩ := Option.map_eq_some_iff.1 htree
    have hholds := he.holds hus.left.tail hvalue
    exact ⟨hholds.1, rfl, Nat.succ_le_succ hholds.nesting_le⟩
  | .bare ht hword he, hus, htree => by
    obtain ⟨value, hvalue, rfl⟩ := Option.map_eq_some_iff.1 htree
    have hholds := he.holds hus hvalue
    refine ⟨hholds.1, ?_, Nat.succ_le_succ hholds.nesting_le⟩
    rw [Stmt.begins, Expr.beginsBare, (he.head_lexeme ht rfl hvalue).2]
    simpa [Lexeme.word] using hword

theorem Body.printable {us : List Token} {cs : List (Clause Token)} {n : Nat} {ss : List Stmt} :
    Body id us cs n → Written us → Clause.trees? id cs = some ss →
    Stmt.writableAll ss = true ∧ Stmt.beginsAll ss = true ∧ Stmt.nestingAll ss ≤ n
  | .nil, _, htrees => by
    obtain rfl := Option.some.inj htrees
    exact ⟨rfl, rfl, Nat.le_refl _⟩
  | .semicolon _ hcs, hus, htrees => hcs.printable hus.tail htrees
  | .cons hc hcs, hus, htrees => by
    obtain ⟨s, htree, ss, htrees', rfl⟩ := Clause.trees?_cons_eq_some_iff.1 htrees
    obtain ⟨hwritable, hbegins, hnesting⟩ := hc.printable hus.left htree
    obtain ⟨hwritable', hbegins', hnesting'⟩ := hcs.printable hus.right htrees'
    refine ⟨?_, ?_, ?_⟩
    · rw [Stmt.writableAll, hwritable, hwritable']
      rfl
    · rw [Stmt.beginsAll, hbegins, hbegins']
      rfl
    · rw [Stmt.nestingAll]
      omega

end

end Grammar

namespace Parse

variable {program : List Stmt} {file : String}

theorem parseSource_eq_ok_iff {source : String} :
    parseSource source file = .ok program ↔
      ∃ tokens, tokenize source (some file) = .ok tokens ∧ parse tokens file = .ok program := by
  unfold parseSource
  cases tokenize source (some file) with
  | error d => simp [bind, Except.bind]
  | ok tokens => simp [bind, Except.bind]

theorem parseSource_print (h : Stmt.Printable program) (file : String) :
    parseSource (Stmt.print program) file = .ok program := by
  have hformed := Stmt.wellFormed_lexemesAll program h.writable
  have htokens := Lexeme.tokenize_spaced hformed file
  have hlayout : ((Stmt.lexemesAll program).map (Lexeme.token file)).filter
      (·.kind ≠ .newline) = (Stmt.lexemesAll program).map (Lexeme.token file) := by
    rw [List.filter_eq_self]
    intro t ht
    obtain ⟨l, hl, rfl⟩ := List.mem_map.1 ht
    exact decide_eq_true (hformed l hl).1
  obtain ⟨clauses, hbody, htrees⟩ := Stmt.printsAll file program h.writable h.begins
  have hgenerates : Generates ((Stmt.lexemesAll program).map (Lexeme.token file)) program :=
    ⟨clauses, Stmt.nestingAll program, by rw [hlayout]; exact hbody, h.nesting, htrees⟩
  exact parseSource_eq_ok_iff.2
    ⟨_, htokens, parse_of_generates hgenerates h.resolves file⟩

theorem printable_of_parseSource {source : String} (h : parseSource source file = .ok program) :
    Stmt.Printable program := by
  obtain ⟨tokens, htokens, hparse⟩ := parseSource_eq_ok_iff.1 h
  have hspells := tokenize_eq_ok htokens
  obtain ⟨⟨clauses, levels, hbody, hlevels, htrees⟩, hresolves⟩ := generates_of_parse hparse
  have hwritten : Written (tokens.filter (·.kind ≠ .newline)) := fun t ht =>
    hspells.admits (List.mem_filter.1 ht).1
  obtain ⟨hwritable, hbegins, hnesting⟩ := hbody.printable hwritten htrees
  exact ⟨hwritable, hbegins, hresolves, Nat.le_trans hnesting hlevels⟩

/-- The programs that some text gives are the printable ones, and those their own print gives. -/
theorem parseSource_print_iff (program : List Stmt) (file : String) :
    ((∃ source, parseSource source file = .ok program) ↔ Stmt.Printable program) ∧
      (Stmt.Printable program ↔ parseSource (Stmt.print program) file = .ok program) := by
  refine ⟨⟨?_, ?_⟩, ⟨?_, printable_of_parseSource⟩⟩
  · rintro ⟨source, h⟩
    exact printable_of_parseSource h
  · intro h
    exact ⟨Stmt.print program, parseSource_print h file⟩
  · intro h
    exact parseSource_print h file

end Parse

end Scopewise
