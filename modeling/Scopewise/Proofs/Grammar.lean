import Scopewise.Tree.Basic

namespace Scopewise

namespace PrefixOp

def kind : PrefixOp → Token.Kind
  | .plus => .plus
  | .minus => .dash

theorem ofKind?_kind (op : PrefixOp) : ofKind? op.kind = some op := by
  cases op <;> rfl

theorem kind_ne_closeParen (op : PrefixOp) : op.kind ≠ .closeParen := by
  cases op <;> decide

theorem kind_ne_identifier (op : PrefixOp) : op.kind ≠ .identifier := by
  cases op <;> decide

theorem kind_of_ofKind? {kind : Token.Kind} {op : PrefixOp} (h : ofKind? kind = some op) :
    kind = op.kind := by
  cases kind <;> simp only [ofKind?, reduceCtorEq, Option.some.injEq] at h
  all_goals subst h; rfl

end PrefixOp

namespace Grammar

/-- How tightly an expression holds together: `sum` the least, `primary` the most. -/
inductive Level
  | sum
  | term
  | unary
  | primary
deriving DecidableEq, Repr

def Level.rank : Level → Nat
  | .sum => 0
  | .term => 1
  | .unary => 2
  | .primary => 3

/-- The next tighter level. -/
def Level.next : Level → Level
  | .sum => .term
  | .term => .unary
  | .unary | .primary => .primary

theorem Level.rank_le_rank_next (level : Level) : level.rank ≤ level.next.rank := by
  cases level <;> decide

end Grammar

namespace BinaryOp

def kind : BinaryOp → Token.Kind
  | .add => .plus
  | .subtract => .dash
  | .multiply => .star
  | .divide => .slash

/-- The level of the expressions that the operator makes. -/
def level : BinaryOp → Grammar.Level
  | .add | .subtract => .sum
  | .multiply | .divide => .term

theorem ofKind?_kind (op : BinaryOp) : ofKind? op.kind = some op := by
  cases op <;> rfl

end BinaryOp

/-- The word that declares a variable. -/
def Mutability.keyword : Mutability → String
  | .mutable => "let"
  | .immutable => "const"

namespace Grammar

/-- An expression as it is written. -/
inductive Phrase (α : Type)
  | integer (literal : α)
  | variable (name : α)
  | call (name : α) (args : List (Phrase α))
  | unary (op : PrefixOp) (operand : Phrase α)
  | binary (op : BinaryOp) (left right : Phrase α)
deriving Repr, Inhabited

/-- A statement as it is written. -/
inductive Clause (α : Type)
  | function (name : α) (params : List (α × α)) (returnType : α) (body : List (Clause α))
  | binding (mutability : Mutability) (name : α) (value : Phrase α)
  | returning (value : Phrase α)
  | bare (value : Phrase α)
deriving Repr, Inhabited

/-- The words that begin a statement other than a bare expression. -/
def keywords : List String :=
  ["fn", "let", "const", "return"]

variable {α : Type} (token : α → Token)

mutual

/-- Expressions by level:

    sum     := term (('+' | '-') term)*
    term    := unary (('*' | '/') unary)*
    unary   := ('+' | '-') unary | primary
    primary := IDENT '(' args ')' | IDENT | INTEGER | '(' sum ')'

The text is without layout, and its places are of any type in which each one has its token. The
number counts how many levels of nesting are opened at once. Each of these opens one: a block, the
value of a statement, an argument, an expression in parentheses, the operand of a sign, and the
right operand of an operator. -/
inductive Derives : Level → List α → Phrase α → Nat → Prop
  | integer {t : α} (ht : (token t).kind = .integer) : Derives .primary [t] (.integer t) 0
  | variable {t : α} (ht : (token t).kind = .identifier) : Derives .primary [t] (.variable t) 0
  | callNil {t l r : α} (ht : (token t).kind = .identifier) (hl : (token l).kind = .openParen)
      (hr : (token r).kind = .closeParen) : Derives .primary [t, l, r] (.call t []) 0
  | call {t l : α} {us : List α} {args : List (Phrase α)} {n : Nat}
      (ht : (token t).kind = .identifier) (hl : (token l).kind = .openParen)
      (hargs : Arguments us args n) : Derives .primary (t :: l :: us) (.call t args) n
  | group {l r : α} {us : List α} {e : Phrase α} {n : Nat} (hl : (token l).kind = .openParen)
      (he : Derives .sum us e n) (hr : (token r).kind = .closeParen) :
      Derives .primary (l :: us ++ [r]) e (n + 1)
  | sign {t : α} {us : List α} {op : PrefixOp} {e : Phrase α} {n : Nat}
      (ht : (token t).kind = op.kind) (he : Derives .unary us e n) :
      Derives .unary (t :: us) (.unary op e) (n + 1)
  | lift {level : Level} {us : List α} {e : Phrase α} {n : Nat}
      (he : Derives level.next us e n) : Derives level us e n
  | binary {level : Level} {op : BinaryOp} {t : α} {us vs : List α} {l r : Phrase α} {n m : Nat}
      (hop : op.level = level) (hl : Derives level us l n) (ht : (token t).kind = op.kind)
      (hr : Derives level.next vs r m) :
      Derives level (us ++ t :: vs) (.binary op l r) (max n (m + 1))

/-- One or more expressions with commas between them, and the parenthesis that closes them. -/
inductive Arguments : List α → List (Phrase α) → Nat → Prop
  | last {us : List α} {e : Phrase α} {n : Nat} {r : α} (he : Derives .sum us e n)
      (hr : (token r).kind = .closeParen) : Arguments (us ++ [r]) [e] (n + 1)
  | cons {us vs : List α} {e : Phrase α} {es : List (Phrase α)} {n m : Nat} {c : α}
      (he : Derives .sum us e n) (hc : (token c).kind = .comma) (hes : Arguments vs es m) :
      Arguments (us ++ c :: vs) (e :: es) (max (n + 1) m)

end

/-- One or more parameters with commas between them, and the parenthesis that closes them. -/
inductive Parameters : List α → List (α × α) → Prop
  | last {name colon type r : α} (hname : (token name).kind = .identifier)
      (hcolon : (token colon).kind = .colon) (htype : (token type).kind = .identifier)
      (hr : (token r).kind = .closeParen) : Parameters [name, colon, type, r] [(name, type)]
  | cons {name colon type c : α} {us : List α} {ps : List (α × α)}
      (hname : (token name).kind = .identifier) (hcolon : (token colon).kind = .colon)
      (htype : (token type).kind = .identifier) (hc : (token c).kind = .comma)
      (hps : Parameters us ps) : Parameters (name :: colon :: type :: c :: us) ((name, type) :: ps)

/-- Parameters that may be missing, between their parentheses. -/
inductive Signature : List α → List (α × α) → Prop
  | nil {l r : α} (hl : (token l).kind = .openParen) (hr : (token r).kind = .closeParen) :
      Signature [l, r] []
  | params {l : α} {us : List α} {ps : List (α × α)} (hl : (token l).kind = .openParen)
      (hps : Parameters token us ps) : Signature (l :: us) ps

mutual

/-- Statements:

    stmt := 'fn' IDENT '(' params ')' ':' IDENT '{' body '}' ';'
          | ('let' | 'const') IDENT '=' sum ';'
          | 'return' sum ';'
          | sum, if it begins with an identifier that is no keyword
-/
inductive Statement : List α → Clause α → Nat → Prop
  | function {lead name colon type l r semicolon : α} {us vs : List α} {ps : List (α × α)}
      {body : List (Clause α)} {n : Nat} (hlead : (token lead).isWord "fn" = true)
      (hname : (token name).kind = .identifier) (hps : Signature token us ps)
      (hcolon : (token colon).kind = .colon) (htype : (token type).kind = .identifier)
      (hl : (token l).kind = .openCurly) (hbody : Body vs body n)
      (hr : (token r).kind = .closeCurly) (hsemicolon : (token semicolon).kind = .semicolon) :
      Statement (lead :: name :: us ++ colon :: type :: l :: vs ++ [r, semicolon])
        (.function name ps type body) (n + 1)
  | binding {mutability : Mutability} {lead name eq semicolon : α} {us : List α} {e : Phrase α}
      {n : Nat} (hlead : (token lead).isWord mutability.keyword = true)
      (hname : (token name).kind = .identifier) (heq : (token eq).kind = .assignment)
      (he : Derives token .sum us e n) (hsemicolon : (token semicolon).kind = .semicolon) :
      Statement (lead :: name :: eq :: us ++ [semicolon]) (.binding mutability name e) (n + 1)
  | returning {lead semicolon : α} {us : List α} {e : Phrase α} {n : Nat}
      (hlead : (token lead).isWord "return" = true) (he : Derives token .sum us e n)
      (hsemicolon : (token semicolon).kind = .semicolon) :
      Statement (lead :: us ++ [semicolon]) (.returning e) (n + 1)
  | bare {t : α} {us : List α} {e : Phrase α} {n : Nat} (ht : (token t).kind = .identifier)
      (hword : (token t).value ∉ keywords) (he : Derives token .sum (t :: us) e n) :
      Statement (t :: us) (.bare e) (n + 1)

/-- Statements and stray semicolons. -/
inductive Body : List α → List (Clause α) → Nat → Prop
  | nil : Body [] [] 0
  | semicolon {t : α} {us : List α} {cs : List (Clause α)} {n : Nat}
      (ht : (token t).kind = .semicolon) (hcs : Body us cs n) : Body (t :: us) cs n
  | cons {us vs : List α} {c : Clause α} {cs : List (Clause α)} {n m : Nat}
      (hc : Statement us c n) (hcs : Body vs cs m) : Body (us ++ vs) (c :: cs) (max n m)

end

variable {token}

/-- An expression of one level is one of every looser level. -/
theorem Derives.loosen {level : Level} {us : List α} {e : Phrase α} {n : Nat}
    (h : Derives token level us e n) (level' : Level) (hle : level'.rank ≤ level.rank) :
    Derives token level' us e n := by
  cases level' with
  | sum =>
    cases level with
    | sum => exact h
    | term => exact .lift h
    | unary => exact .lift (.lift h)
    | primary => exact .lift (.lift (.lift h))
  | term =>
    cases level with
    | sum => exact absurd hle (by decide)
    | term => exact h
    | unary => exact .lift h
    | primary => exact .lift (.lift h)
  | unary =>
    cases level with
    | sum | term => exact absurd hle (by decide)
    | unary => exact h
    | primary => exact .lift h
  | primary =>
    cases level with
    | sum | term | unary => exact absurd hle (by decide)
    | primary => exact h

theorem Parameters.exists_cons {us : List α} {ps : List (α × α)} (h : Parameters token us ps) :
    ∃ t ts, us = t :: ts ∧ (token t).kind = .identifier := by
  cases h with
  | last hname | cons hname => exact ⟨_, _, rfl, hname⟩

theorem Statement.exists_cons {us : List α} {c : Clause α} {n : Nat} (h : Statement token us c n) :
    ∃ t ts, us = t :: ts ∧ (token t).kind = .identifier := by
  cases h with
  | function hlead => exact ⟨_, _, rfl, by simp_all [Token.isWord]⟩
  | binding hlead => exact ⟨_, _, rfl, by simp_all [Token.isWord]⟩
  | returning hlead => exact ⟨_, _, rfl, by simp_all [Token.isWord]⟩
  | bare ht => exact ⟨_, _, rfl, ht⟩

/-- A body is empty, or begins with an identifier or a semicolon. -/
theorem Body.head_kind {us : List α} {cs : List (Clause α)} {n : Nat} (h : Body token us cs n) :
    ∀ t ∈ us.head?, (token t).kind = .identifier ∨ (token t).kind = .semicolon := by
  cases h with
  | nil => simp
  | semicolon ht => simp [ht]
  | cons hc =>
    obtain ⟨t, ts, rfl, ht⟩ := hc.exists_cons
    simp [ht]

end Grammar

end Scopewise
