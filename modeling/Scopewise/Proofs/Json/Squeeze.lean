import Scopewise.Proofs.Json.Reading

namespace Scopewise.Json

mutual

/-- A text without the spaces and line breaks outside of its strings. -/
def squeeze : List Char → List Char
  | [] => []
  | '"' :: rest => '"' :: squeezeQuoted rest
  | c :: rest => if c = ' ' ∨ c = '\n' then squeeze rest else c :: squeeze rest

/-- The same from within a string on, which ends at the next quote that is not escaped. -/
def squeezeQuoted : List Char → List Char
  | [] => []
  | '"' :: rest => '"' :: squeeze rest
  | '\\' :: c :: rest => '\\' :: c :: squeezeQuoted rest
  | c :: rest => c :: squeezeQuoted rest

end

example : squeeze "[1, \" \\\" \", \x7b \"a b\": 2\n\x7d]".toList =
    "[1,\" \\\" \",\x7b\"a b\":2\x7d]".toList := by
  decide +kernel

@[simp]
theorem squeeze_lineBreak_append (layout : Layout) (depth : Nat) (rest : List Char) :
    squeeze (layout.lineBreak depth ++ rest) = squeeze rest := by
  have hblank (n : Nat) : squeeze (List.replicate n ' ' ++ rest) = squeeze rest := by
    induction n with
    | zero => rfl
    | succ n ih => simpa [List.replicate_succ, squeeze] using ih
  cases layout with
  | compact => rfl
  | indented width => simp [Layout.lineBreak, squeeze, hblank]

@[simp]
theorem squeeze_colon_append (layout : Layout) (rest : List Char) :
    squeeze (layout.colon ++ rest) = ':' :: squeeze rest := by
  cases layout <;> simp [Layout.colon, squeeze]

theorem squeezeQuoted_escape_append (c : Char) (rest : List Char) :
    squeezeQuoted (escape c ++ rest) = escape c ++ squeezeQuoted rest := by
  obtain ⟨letter, hescape, -⟩ | ⟨high, hhigh, low, hlow, -, hescape⟩ | ⟨hquote, hslash, hescape⟩ :=
    escape_cases c
  · rw [hescape]
    simp [squeezeQuoted]
  · have hdigit : ∀ n < 16, Nat.digitChar n ≠ '"' ∧ Nat.digitChar n ≠ '\\' := by decide
    rw [hescape]
    simp [squeezeQuoted, hdigit high hhigh, hdigit low hlow]
  · rw [hescape]
    simp [squeezeQuoted, hslash]

@[simp]
theorem squeeze_writeString (text : String) (rest : List Char) :
    squeeze (writeString text rest) = writeString text (squeeze rest) := by
  have hquoted (cs : List Char) : squeezeQuoted (cs.flatMap escape ++ '"' :: rest) =
      cs.flatMap escape ++ '"' :: squeeze rest := by
    induction cs with
    | nil => simp [squeezeQuoted]
    | cons c cs ih =>
      rw [List.flatMap_cons, List.append_assoc, squeezeQuoted_escape_append, ih, List.append_assoc]
  rw [writeString, squeeze, hquoted, writeString]

/-- What is neither blank nor a quote is kept. -/
theorem squeeze_append {text : List Char} (h : ∀ c ∈ text, c ∉ ['"', ' ', '\n'])
    (rest : List Char) : squeeze (text ++ rest) = text ++ squeeze rest := by
  induction text with
  | nil => rfl
  | cons c text ih =>
    obtain ⟨hc, htext⟩ := List.forall_mem_cons.1 h
    simp only [List.mem_cons, List.not_mem_nil, or_false, not_or] at hc
    obtain ⟨hquote, hblank⟩ := hc
    rw [List.cons_append, squeeze, if_neg (not_or.2 hblank), ih htext, List.cons_append]
    exact fun heq => hquote heq

@[simp]
theorem squeeze_writeInt (value : Int) (rest : List Char) :
    squeeze (writeInt value rest) = writeInt value (squeeze rest) := by
  have hdigits (n : Nat) : squeeze (Nat.toDigits 10 n ++ rest) =
      Nat.toDigits 10 n ++ squeeze rest := by
    apply squeeze_append
    intro c hc hmem
    have hdigit : c.isDigit = true := Nat.isDigit_of_mem_toDigits (by decide) (by decide) hc
    simp only [List.mem_cons, List.not_mem_nil, or_false] at hmem
    obtain rfl | rfl | rfl := hmem
    all_goals exact absurd hdigit (by decide)
  cases value with
  | ofNat n => exact hdigits n
  | negSucc n =>
    rw [writeInt, squeeze, if_neg (by decide), hdigits, writeInt]
    decide

mutual

theorem squeeze_write (layout : Layout) (depth depth' : Nat) (rest : List Char) :
    (value : Json) → squeeze (value.write layout depth rest) =
      value.write .compact depth' (squeeze rest)
  | .null | .bool true | .bool false => squeeze_append (by simp) rest
  | .integer value => squeeze_writeInt value rest
  | .string value => squeeze_writeString value rest
  | .array [] | .object [] => by simp [write, squeeze]
  | .array (item :: items) => by
    simp [write, squeeze, squeeze_write layout (depth + 1) (depth' + 1) _ item,
      squeeze_writeItems layout (depth + 1) (depth' + 1) _ items]
  | .object ((key, value) :: members) => by
    simp [write, squeeze, squeeze_write layout (depth + 1) (depth' + 1) _ value,
      squeeze_writeMembers layout (depth + 1) (depth' + 1) _ members]

theorem squeeze_writeItems (layout : Layout) (depth depth' : Nat) (rest : List Char) :
    (items : List Json) → squeeze (writeItems layout depth items rest) =
      writeItems .compact depth' items (squeeze rest)
  | [] => rfl
  | item :: items => by
    simp [writeItems, squeeze, squeeze_write layout depth depth' _ item,
      squeeze_writeItems layout depth depth' _ items]

theorem squeeze_writeMembers (layout : Layout) (depth depth' : Nat) (rest : List Char) :
    (members : List (String × Json)) → squeeze (writeMembers layout depth members rest) =
      writeMembers .compact depth' members (squeeze rest)
  | [] => rfl
  | (key, value) :: members => by
    simp [writeMembers, squeeze, squeeze_write layout depth depth' _ value,
      squeeze_writeMembers layout depth depth' _ members]

end

/-- Layouts differ in blanks only. -/
theorem squeeze_render (layout : Layout) (value : Json) :
    squeeze (value.render layout).toList = value.compact.toList := by
  have hwrite := squeeze_write layout 0 0 [] value
  simpa [render, compact, squeeze] using hwrite

end Scopewise.Json
