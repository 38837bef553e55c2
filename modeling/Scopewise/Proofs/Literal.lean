import Mathlib.Data.Nat.Digits.Defs
import Scopewise.Proofs.RoundTrip

namespace Scopewise

open Grammar Token

namespace Text

def digitValue (c : Char) : Nat :=
  c.toNat - '0'.toNat

/-- The value of a numeral by the places of its digits, of which the last counts one. -/
def decimal (digits : List Char) : Nat :=
  Nat.ofDigits 10 (digits.reverse.map digitValue)

/-- The text is a numeral, behind at most one sign, and denotes the number. -/
inductive Denotes : List Char → Int → Prop
  | bare {digits : List Char} (h : isNumeral digits = true) : Denotes digits (decimal digits)
  | plus {digits : List Char} (h : isNumeral digits = true) :
      Denotes ('+' :: digits) (decimal digits)
  | minus {digits : List Char} (h : isNumeral digits = true) :
      Denotes ('-' :: digits) (-decimal digits)

/-- The number in 64 bits, unless it overflows. -/
def fit? (n : Int) : Option Int64 :=
  if -2 ^ 63 ≤ n ∧ n ≤ 2 ^ 63 - 1 then some (Int64.ofInt n) else none

/-- One more digit behind a number of the given sign. Neither of the two steps may overflow. -/
def pushDigit? (sign : Int) (value : Int64) (c : Char) : Option Int64 :=
  if c.isDigit then
    (fit? (value.toInt * 10)).bind fun tenfold => fit? (tenfold.toInt + sign * digitValue c)
  else none

def accumulate? (sign : Int) (digits : List Char) : Option Int64 :=
  if digits = [] then none else digits.foldlM (pushDigit? sign) 0

/-- The sign of a literal as a factor, and what is behind it. -/
def splitSign : List Char → Int × List Char
  | '-' :: digits => (-1, digits)
  | '+' :: digits => (1, digits)
  | digits => (1, digits)

/-- Reads a literal digit by digit, in 64 bits all the way. -/
def readStepwise? (text : List Char) : Option Int64 :=
  accumulate? (splitSign text).1 (splitSign text).2

theorem ofDigitChars_cons (c : Char) (digits : List Char) (m : Nat) :
    Nat.ofDigitChars 10 (c :: digits) m = Nat.ofDigitChars 10 digits (10 * m + digitValue c) :=
  Nat.ofDigitChars_cons

theorem ofDigitChars_eq_decimal (digits : List Char) :
    Nat.ofDigitChars 10 digits 0 = decimal digits := by
  induction digits using List.reverseRecOn with
  | nil => rfl
  | append_singleton digits c ih =>
    have hdecimal : decimal (digits ++ [c]) = digitValue c + 10 * decimal digits := by
      rw [decimal, List.reverse_append, List.reverse_singleton, List.singleton_append,
        List.map_cons, Nat.ofDigits_cons]
      rfl
    rw [Nat.ofDigitChars_append, ih, hdecimal, ofDigitChars_cons, Nat.ofDigitChars_nil,
      Nat.add_comm]

theorem readDigits?_eq_some_iff {digits : List Char} {n : Nat} :
    readDigits? digits = some n ↔ isNumeral digits = true ∧ decimal digits = n := by
  unfold readDigits?
  rw [ofDigitChars_eq_decimal]
  simp [isNumeral]

theorem sign_cases (text : List Char) : (splitSign text).1 = 1 ∨ (splitSign text).1 = -1 := by
  unfold splitSign
  split
  · exact .inr rfl
  · exact .inl rfl
  · exact .inl rfl

/-- A numeral has no sign. -/
theorem splitSign_of_isNumeral {digits : List Char} (h : isNumeral digits = true) :
    splitSign digits = (1, digits) := by
  rw [isNumeral, Bool.and_eq_true, List.all_eq_true] at h
  unfold splitSign
  split
  · exact absurd (h.2 _ List.mem_cons_self) (by decide)
  · exact absurd (h.2 _ List.mem_cons_self) (by decide)
  · rfl

theorem readSigned?_eq_map (text : List Char) :
    readSigned? text =
      (readDigits? (splitSign text).2).map fun n : Nat => (splitSign text).1 * n := by
  unfold readSigned?
  split
  · next digits =>
    change _ = (readDigits? digits).map fun n : Nat => -1 * (n : Int)
    cases readDigits? digits with
    | none => rfl
    | some n => exact congrArg some (Int.neg_one_mul _).symm
  · next digits =>
    change _ = (readDigits? digits).map fun n : Nat => 1 * (n : Int)
    cases readDigits? digits with
    | none => rfl
    | some n => exact congrArg some (Int.one_mul _).symm
  · next hminus hplus =>
    have hsplit : splitSign text = (1, text) := by
      rw [splitSign]
      · exact hminus
      · exact hplus
    rw [hsplit]
    cases readDigits? text with
    | none => rfl
    | some n => exact congrArg some (Int.one_mul _).symm

theorem denotes_iff {text : List Char} {n : Int} :
    Denotes text n ↔
      isNumeral (splitSign text).2 = true ∧
        (splitSign text).1 * (decimal (splitSign text).2 : Int) = n := by
  constructor
  · intro h
    cases h with
    | bare h => rw [splitSign_of_isNumeral h]; exact ⟨h, Int.one_mul _⟩
    | plus h => exact ⟨h, Int.one_mul _⟩
    | minus h => exact ⟨h, Int.neg_one_mul _⟩
  · rintro ⟨h, rfl⟩
    unfold splitSign at h ⊢
    split at h
    · simpa using Denotes.minus h
    · simpa using Denotes.plus h
    · simpa using Denotes.bare h

theorem denotes_iff_of_isNumeral {digits : List Char} (h : isNumeral digits = true) {n : Int} :
    Denotes digits n ↔ n = decimal digits := by
  rw [denotes_iff, splitSign_of_isNumeral h, Int.one_mul]
  exact (and_iff_right h).trans eq_comm

theorem readSigned?_eq_some_iff {text : List Char} {n : Int} :
    readSigned? text = some n ↔ Denotes text n := by
  rw [readSigned?_eq_map, denotes_iff, Option.map_eq_some_iff]
  simp only [readDigits?_eq_some_iff]
  constructor
  · rintro ⟨m, ⟨hdigits, rfl⟩, rfl⟩
    exact ⟨hdigits, rfl⟩
  · rintro ⟨hdigits, rfl⟩
    exact ⟨_, ⟨hdigits, rfl⟩, rfl⟩

section

variable {n sign : Int} {m k : Nat} {value : Int64}

theorem fit?_eq_some_iff : fit? n = some value ↔ value.toInt = n := by
  have hlow := Int64.le_toInt value
  have hhigh := value.toInt_le
  rw [Int64.toInt_maxValue] at hhigh
  unfold fit?
  split
  · next hrange =>
    have hn : (Int64.ofInt n).toInt = n := Int64.toInt_ofInt_of_le hrange.1 (by omega)
    rw [Option.some.injEq, ← Int64.toInt_inj, hn, eq_comm]
  · next hrange =>
    constructor
    · intro h
      cases h
    · rintro rfl
      exact absurd ⟨hlow, hhigh⟩ hrange

theorem fit?_eq_none_iff : fit? n = none ↔ ¬(-2 ^ 63 ≤ n ∧ n ≤ 2 ^ 63 - 1) := by
  simp [fit?]

theorem readInt64?_eq_bind (text : String) :
    readInt64? text = (readSigned? text.toList).bind fit? := by
  unfold readInt64?
  cases readSigned? text.toList with
  | none => rfl
  | some n => rfl

theorem readInt64?_eq_some_iff {text : String} :
    readInt64? text = some value ↔ Denotes text.toList value.toInt := by
  rw [readInt64?_eq_bind, Option.bind_eq_some_iff]
  simp only [fit?_eq_some_iff, readSigned?_eq_some_iff]
  constructor
  · rintro ⟨n, hn, rfl⟩
    exact hn
  · intro h
    exact ⟨_, h, rfl⟩

theorem exists_readInt64?_iff {text : String} :
    (∃ value : Int64, value.toInt = n ∧ readInt64? text = some value) ↔
      Denotes text.toList n ∧ -2 ^ 63 ≤ n ∧ n ≤ 2 ^ 63 - 1 := by
  constructor
  · rintro ⟨value, rfl, hread⟩
    have hhigh := value.toInt_le
    rw [Int64.toInt_maxValue] at hhigh
    exact ⟨readInt64?_eq_some_iff.1 hread, Int64.le_toInt value, hhigh⟩
  · rintro ⟨hdenotes, hlow, hhigh⟩
    have hn : (Int64.ofInt n).toInt = n := Int64.toInt_ofInt_of_le hlow (by omega)
    refine ⟨Int64.ofInt n, hn, readInt64?_eq_some_iff.2 ?_⟩
    rwa [hn]

/-- An overflow is not made good by more digits. -/
theorem fit?_eq_none_of_le (hsign : sign = 1 ∨ sign = -1) (hle : m ≤ k)
    (h : fit? (sign * m) = none) : fit? (sign * k) = none := by
  rw [fit?_eq_none_iff] at h ⊢
  obtain rfl | rfl := hsign
  · omega
  · omega

theorem le_ofDigitChars (digits : List Char) (m : Nat) : m ≤ Nat.ofDigitChars 10 digits m := by
  rw [Nat.ofDigitChars_eq_ofDigitChars_zero]
  have hpos : 0 < 10 ^ digits.length := Nat.pow_pos (by decide)
  exact Nat.le_add_right_of_le (Nat.le_mul_of_pos_left m hpos)

/-- The step for ten times the number overflows only if the next one does. -/
theorem pushDigit?_eq (hsign : sign = 1 ∨ sign = -1) (hvalue : value.toInt = sign * m) {c : Char}
    (hc : c.isDigit = true) :
    pushDigit? sign value c = fit? (sign * (10 * m + digitValue c : Nat)) := by
  rw [pushDigit?, if_pos hc, hvalue]
  have htenfold : sign * m * 10 = sign * (10 * m : Nat) := by
    push_cast
    ring
  rw [htenfold]
  cases hfit : fit? (sign * (10 * m : Nat)) with
  | none => exact (fit?_eq_none_of_le hsign (Nat.le_add_right _ _) hfit).symm
  | some tenfold =>
    rw [Option.bind_some, fit?_eq_some_iff.1 hfit]
    congr 1
    push_cast
    ring

/-- The invariant of the accumulation: the number so far is the value of the digits so far. -/
theorem foldlM_pushDigit? (hsign : sign = 1 ∨ sign = -1) (digits : List Char)
    (hvalue : value.toInt = sign * m) :
    digits.foldlM (pushDigit? sign) value =
      if digits.all Char.isDigit then fit? (sign * Nat.ofDigitChars 10 digits m) else none := by
  induction digits generalizing value m with
  | nil => exact (fit?_eq_some_iff.2 hvalue).symm
  | cons c digits ih =>
    rw [List.foldlM_cons, List.all_cons]
    by_cases hc : c.isDigit = true
    · rw [pushDigit?_eq hsign hvalue hc, hc, Bool.true_and, ofDigitChars_cons]
      cases hfit : fit? (sign * (10 * m + digitValue c : Nat)) with
      | some next => exact ih (fit?_eq_some_iff.1 hfit)
      | none =>
        -- zeros in front do not come here, as they leave the number at zero
        have hoverflow := fit?_eq_none_of_le hsign (le_ofDigitChars digits _) hfit
        rw [hoverflow, ite_self]
        rfl
    · simp [pushDigit?, hc]

theorem accumulate?_eq (hsign : sign = 1 ∨ sign = -1) (digits : List Char) :
    accumulate? sign digits = (readDigits? digits).bind fun n => fit? (sign * n) := by
  unfold accumulate? readDigits?
  by_cases hnil : digits = []
  · simp [hnil]
  · have hzero : (0 : Int64).toInt = sign * (0 : Nat) := by simp
    rw [if_neg hnil, foldlM_pushDigit? hsign digits hzero]
    by_cases hall : digits.all Char.isDigit = true
    · rw [if_pos hall, if_pos ⟨hnil, hall⟩, Option.bind_some]
    · rw [if_neg hall, if_neg fun h => hall h.2, Option.bind_none]

/-- Overflow is found on the way exactly if the number does not fit in the end. -/
theorem readInt64?_eq_readStepwise? (text : String) :
    readInt64? text = readStepwise? text.toList := by
  rw [readInt64?_eq_bind, readSigned?_eq_map, Option.bind_map, readStepwise?,
    accumulate?_eq (sign_cases text.toList)]
  rfl

end

end Text

namespace Expr

mutual

/-- The literals of an expression, from left to right. -/
def integers : Expr → List Int64
  | .integer value => [value]
  | .variable _ => []
  | .call _ args => integersAll args
  | .unary _ operand => integers operand
  | .binary _ left right => integers left ++ integers right

def integersAll : List Expr → List Int64
  | [] => []
  | e :: es => integers e ++ integersAll es

end

mutual

theorem integers_nonneg : (e : Expr) → e.writable = true → ∀ value ∈ e.integers, 0 ≤ value.toInt
  | .integer _, h => by
    simp only [writable, Bool.and_eq_true, decide_eq_true_eq] at h
    simpa [integers] using h.1
  | .variable _, _ => by simp [integers]
  | .call _ args, h => by
    rw [writable, Bool.and_eq_true] at h
    exact integersAll_nonneg args h.2
  | .unary _ operand, h => integers_nonneg operand h
  | .binary _ left right, h => by
    rw [writable, Bool.and_eq_true] at h
    rw [integers, List.forall_mem_append]
    exact ⟨integers_nonneg left h.1, integers_nonneg right h.2⟩

theorem integersAll_nonneg : (es : List Expr) → writableAll es = true →
    ∀ value ∈ integersAll es, 0 ≤ value.toInt
  | [], _ => by simp [integersAll]
  | e :: es, h => by
    rw [writableAll, Bool.and_eq_true] at h
    rw [integersAll, List.forall_mem_append]
    exact ⟨integers_nonneg e h.1, integersAll_nonneg es h.2⟩

end

end Expr

namespace Stmt

mutual

def integers : Stmt → List Int64
  | .function _ _ _ body => integersAll body
  | .binding _ _ value | .returning value | .bare value => value.integers

/-- The literals of a program, from left to right. -/
def integersAll : List Stmt → List Int64
  | [] => []
  | s :: ss => integers s ++ integersAll ss

end

mutual

theorem integers_nonneg : (s : Stmt) → s.writable = true → ∀ value ∈ s.integers, 0 ≤ value.toInt
  | .function _ _ _ body, h => by
    rw [writable, Bool.and_eq_true] at h
    exact integersAll_nonneg body h.2
  | .binding _ _ value, h => by
    rw [writable, Bool.and_eq_true] at h
    exact value.integers_nonneg h.2
  | .returning value, h => value.integers_nonneg h
  | .bare value, h => value.integers_nonneg h

theorem integersAll_nonneg : (ss : List Stmt) → writableAll ss = true →
    ∀ value ∈ integersAll ss, 0 ≤ value.toInt
  | [], _ => by simp [integersAll]
  | s :: ss, h => by
    rw [writableAll, Bool.and_eq_true] at h
    rw [integersAll, List.forall_mem_append]
    exact ⟨integers_nonneg s h.1, integersAll_nonneg ss h.2⟩

end

end Stmt

namespace Parse

open Text

variable {α : Type} {s : State} {t : Token} {us : List Token}

/-- What becomes of a literal: a result made of its value, or the fault that cites it. -/
def literalAnswer (text : String) (position : Position) (result : Int64 → α) :
    Except Diagnostic α :=
  match readInt64? text with
  | some value => .ok (result value)
  | none => .error ⟨.integerOutOfRange text, position⟩

theorem literalAnswer_iff {result : Int64 → α} (hresult : Function.Injective result)
    (text : String) (position : Position) :
    (∀ n : Int, (∃ value : Int64, value.toInt = n ∧
        literalAnswer text position result = .ok (result value)) ↔
      Denotes text.toList n ∧ -2 ^ 63 ≤ n ∧ n ≤ 2 ^ 63 - 1) ∧
    (literalAnswer text position result = .error ⟨.integerOutOfRange text, position⟩ ↔
      ¬∃ n, Denotes text.toList n ∧ -2 ^ 63 ≤ n ∧ n ≤ 2 ^ 63 - 1) := by
  simp only [← exists_readInt64?_iff]
  unfold literalAnswer
  cases readInt64? text with
  | none => simp
  | some value => simp [hresult.eq_iff]

theorem outcome_literal (h : s.pending = t :: us) (hkind : t.kind = .integer) :
    outcome (literal.run s) = literalAnswer t.value t.position .integer := by
  have hends : Ends literal s
      (fun e _ => ∃ value, readInt64? t.value = some value ∧ e = .integer value)
      (fun failure _ => readInt64? t.value = none ∧
        failure.diagnostic = ⟨.integerOutOfRange t.value, t.position⟩) := by
    unfold literal expect
    rw [ends_bind, ends_expectNamed, h]
    simp only [hkind, if_true]
    cases hread : readInt64? t.value with
    | none => simp
    | some value => simp
  unfold Ends at hends
  cases hrun : literal.run s with
  | ok e next =>
    rw [hrun] at hends
    obtain ⟨value, hread, rfl⟩ := hends
    rw [literalAnswer, hread]
    rfl
  | error failure next =>
    rw [hrun] at hends
    obtain ⟨hread, hfailure⟩ := hends
    rw [literalAnswer, hread, ← hfailure]
    rfl

/-- The tokens of a constant whose value is one literal. -/
def constTokens (literal file : String) : List Token :=
  [⟨.identifier, "const", 1, file⟩, ⟨.identifier, "x", 1, file⟩, ⟨.assignment, "=", 1, file⟩,
    ⟨.integer, literal, 1, file⟩, ⟨.semicolon, ";", 1, file⟩]

theorem tokenize_const {digits : List Char} (h : isNumeral digits = true) (file : String) :
    tokenize ("const x = " ++ String.ofList digits ++ ";") (some file) =
      .ok (constTokens (String.ofList digits) file) := by
  refine tokenize_eq_ok_iff.2 ⟨⟨0, (constTokens (String.ofList digits) file).zip [1, 1, 1, 0, 0],
    rfl, ?_, ?_⟩, ?_, ?_⟩
  · simp [constTokens, written]
  · simp [constTokens, Apart, Kind.joins]
  · have hdigits : Kind.integer.admits (String.ofList digits).toList = true := by
      rw [String.toList_ofList]
      exact h
    simp only [constTokens, formed_cons_iff]
    exact ⟨by decide, by decide, by decide, hdigits, by decide, List.forall_mem_nil _⟩
  · have hend : Placed file 1 [] := fun before t after hnil => by simp at hnil
    simp only [constTokens, placed_cons_iff]
    exact ⟨rfl, rfl, rfl, rfl, rfl, hend⟩

theorem parse_constTokens (literal file : String) :
    parse (constTokens literal file) file =
      literalAnswer literal ⟨1, file⟩ fun value => [.binding .immutable "x" (.integer value)] := by
  let number : Token := ⟨.integer, literal, 1, file⟩
  let clause : Clause Token := .binding .immutable ⟨.identifier, "x", 1, file⟩ (.integer number)
  have hvalue : Derives id .sum [number] (.integer number) 0 := .lift (.lift (.lift (.integer rfl)))
  have hbody : Body id (constTokens literal file) [clause] 1 :=
    .cons (.binding rfl rfl rfl hvalue rfl) .nil
  have hlayout : (constTokens literal file).map id =
      (constTokens literal file).filter (·.kind ≠ .newline) := rfl
  -- the literal is all that can be wrong
  have hfound : Clause.violationsAll id [{ functions := ["echo"] }] [clause] =
      ensure id (readInt64? literal).isSome number .integerOutOfRange := by
    rw [Clause.violationsAll, Clause.violationsAll, List.append_nil]
    rfl
  have htrees : Clause.trees? id [clause] =
      (readInt64? literal).map fun value => [.binding .immutable "x" (.integer value)] := by
    change ((readInt64? literal).map Expr.integer).map _ >>= _ = _
    cases readInt64? literal <;> rfl
  have hcases := parse_of_body hbody (by decide) hlayout file
  rw [hfound, htrees] at hcases
  unfold literalAnswer
  cases hread : readInt64? literal with
  | none =>
    rw [hread] at hcases
    cases hparse : parse (constTokens literal file) file with
    | ok trees =>
      rw [hparse] at hcases
      cases hcases.2
    | error e =>
      rw [hparse] at hcases
      rw [← Option.some.inj hcases]
      rfl
  | some value =>
    rw [hread] at hcases
    cases hparse : parse (constTokens literal file) file with
    | ok trees =>
      rw [hparse] at hcases
      rw [← Option.some.inj hcases.2]
    | error e =>
      rw [hparse] at hcases
      cases hcases

theorem parseSource_const {digits : List Char} (h : isNumeral digits = true) (file : String) :
    parseSource ("const x = " ++ String.ofList digits ++ ";") file =
      literalAnswer (String.ofList digits) ⟨1, file⟩ fun value =>
        [.binding .immutable "x" (.integer value)] := by
  rw [← parse_constTokens]
  unfold parseSource
  rw [tokenize_const h file]
  rfl

/-- A literal is read exactly if it denotes a signed 64 bit integer, and is cited otherwise; so is a
numeral in a source text, of any length and with any zeros in front. Literals of a program are not
negative, and reading them needs no more than 64 bits. -/
theorem literals_exact :
    (∀ (s : State) (t : Token) (us : List Token), s.pending = t :: us → t.kind = .integer →
      (∀ n : Int, (∃ value : Int64, value.toInt = n ∧
          outcome (literal.run s) = .ok (.integer value)) ↔
        Denotes t.value.toList n ∧ -2 ^ 63 ≤ n ∧ n ≤ 2 ^ 63 - 1) ∧
      (outcome (literal.run s) = .error ⟨.integerOutOfRange t.value, t.position⟩ ↔
        ¬∃ n, Denotes t.value.toList n ∧ -2 ^ 63 ≤ n ∧ n ≤ 2 ^ 63 - 1)) ∧
    (∀ (digits : List Char) (file : String), digits ≠ [] → (∀ c ∈ digits, c.isDigit = true) →
      let parsed := parseSource ("const x = " ++ String.ofList digits ++ ";") file
      ((∃ value : Int64, value.toInt = decimal digits ∧
          parsed = .ok [.binding .immutable "x" (.integer value)]) ↔
        decimal digits ≤ 2 ^ 63 - 1) ∧
      (parsed = .error ⟨.integerOutOfRange (String.ofList digits), 1, file⟩ ↔
        2 ^ 63 - 1 < decimal digits)) ∧
    (∀ (source file : String) (program : List Stmt), parseSource source file = .ok program →
      ∀ value ∈ Stmt.integersAll program, 0 ≤ value.toInt) ∧
    ∀ text : String, readInt64? text = readStepwise? text.toList := by
  refine ⟨fun s t us h hkind => ?_, fun digits file hne hall => ?_, fun source file program h => ?_,
    readInt64?_eq_readStepwise?⟩
  · rw [outcome_literal h hkind]
    exact literalAnswer_iff (fun _ _ => Expr.integer.inj) t.value t.position
  · have hdigits : isNumeral digits = true := by
      rw [isNumeral, Bool.and_eq_true, List.all_eq_true]
      exact ⟨by simpa using hne, hall⟩
    have hinjective : Function.Injective fun value : Int64 =>
        [Stmt.binding .immutable "x" (.integer value)] := by
      intro a b h
      simpa using h
    obtain ⟨hok, herror⟩ := literalAnswer_iff hinjective (String.ofList digits) ⟨1, file⟩
    simp only [String.toList_ofList, denotes_iff_of_isNumeral hdigits] at hok herror
    rw [parseSource_const hdigits file]
    refine ⟨(hok _).trans ?_, herror.trans ?_⟩
    · simp only [true_and]
      omega
    · simp only [exists_eq_left]
      omega
  · exact Stmt.integersAll_nonneg program (printable_of_parseSource h).writable

/-- The least number, written with zeros in front of it, in a token behind a newline; one number too
many; and a sign, which is not part of the literal. -/
theorem literals_exact_bounds :
    let t : Token := ⟨.integer, "-009223372036854775808", 7, "g"⟩
    (∃ value : Int64, value.toInt = -9223372036854775808 ∧
      outcome (literal.run { rest := [⟨.newline, "\n", 1, "f"⟩, t], file := "f" }) =
        .ok (.integer value)) ∧
    parseSource "const x = 9223372036854775808;" "f" =
      .error ⟨.integerOutOfRange "9223372036854775808", 1, "f"⟩ ∧
    ∀ value ∈ Stmt.integersAll [.binding .immutable "x" (.unary .minus (.integer 8))],
      0 ≤ value.toInt := by
  intro t
  obtain ⟨hliteral, hsource, hprogram, -⟩ := literals_exact
  have hleast : Denotes "-009223372036854775808".toList (-9223372036854775808) :=
    denotes_iff.2 ⟨by decide +kernel, by decide +kernel⟩
  refine ⟨?_, ?_, ?_⟩
  · apply ((hliteral _ t [] rfl rfl).1 _).2
    exact ⟨hleast, by decide, by decide⟩
  · have hall : ∀ c ∈ "9223372036854775808".toList, c.isDigit = true :=
      List.all_eq_true.1 (by decide)
    exact (hsource _ "f" (by decide) hall).2.2 (by decide +kernel)
  · exact hprogram "const x = -8;" "f" _ rfl

end Parse

end Scopewise
