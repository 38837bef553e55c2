import Scopewise.Json
import Scopewise.Text.Decimal

namespace Scopewise.Json

@[simp]
theorem Layout.lineBreak_compact (depth : Nat) : Layout.compact.lineBreak depth = [] := rfl

@[simp]
theorem Layout.colon_compact : Layout.compact.colon = [':'] := rfl

/-- The value of a hexadecimal digit in lower case. -/
def hexValue? (c : Char) : Option Nat :=
  (List.range 16).find? (Nat.digitChar · = c)

/-- The character that a letter behind a backslash stands for. -/
def unescape? : Char → Option Char
  | '"' => some '"'
  | '\\' => some '\\'
  | 'b' => some '\x08'
  | 't' => some '\t'
  | 'n' => some '\n'
  | 'f' => some '\x0c'
  | 'r' => some '\r'
  | _ => none

/-- The characters of a string whose opening quote has been read, and what stands behind it. -/
def readString? : List Char → Option (List Char × List Char)
  | [] => none
  | '"' :: rest => some ([], rest)
  | '\\' :: 'u' :: '0' :: '0' :: high :: low :: rest => do
    let c := Char.ofNat (16 * (← hexValue? high) + (← hexValue? low))
    (readString? rest).map fun (cs, rest) => (c :: cs, rest)
  | '\\' :: letter :: rest => do
    let c ← unescape? letter
    (readString? rest).map fun (cs, rest) => (c :: cs, rest)
  | c :: rest => (readString? rest).map fun (cs, rest) => (c :: cs, rest)

def readNat? (text : List Char) : Option (Nat × List Char) :=
  (Text.readDigits? (text.takeWhile Char.isDigit)).map (·, text.dropWhile Char.isDigit)

def readInt? : List Char → Option (Int × List Char)
  | '-' :: text => (readNat? text).map fun (n, rest) => (-n, rest)
  | text => (readNat? text).map fun (n, rest) => (n, rest)

mutual

/-- The value that a text begins with, and what stands behind it. Every call reads a character
before it calls another, so the length of the text is fuel enough. -/
def readValue? : Nat → List Char → Option (Json × List Char)
  | 0, _ => none
  | _ + 1, 'n' :: 'u' :: 'l' :: 'l' :: rest => some (.null, rest)
  | _ + 1, 't' :: 'r' :: 'u' :: 'e' :: rest => some (.bool true, rest)
  | _ + 1, 'f' :: 'a' :: 'l' :: 's' :: 'e' :: rest => some (.bool false, rest)
  | _ + 1, '"' :: rest => (readString? rest).map fun (cs, rest) => (.string (.ofList cs), rest)
  | fuel + 1, '[' :: rest =>
    if rest.head? = some ']' then some (.array [], rest.tail)
    else do
      let (item, rest) ← readValue? fuel rest
      let (items, rest) ← readItems? fuel rest
      return (.array (item :: items), rest)
  | fuel + 1, '\x7b' :: rest =>
    if rest.head? = some '\x7d' then some (.object [], rest.tail)
    else do
      let (member, rest) ← readMember? fuel rest
      let (members, rest) ← readMembers? fuel rest
      return (.object (member :: members), rest)
  | _ + 1, text => (readInt? text).map fun (value, rest) => (.integer value, rest)

/-- The items behind the first one of an array, and the bracket that closes it. -/
def readItems? : Nat → List Char → Option (List Json × List Char)
  | 0, _ => none
  | _ + 1, ']' :: rest => some ([], rest)
  | fuel + 1, ',' :: rest => do
    let (item, rest) ← readValue? fuel rest
    let (items, rest) ← readItems? fuel rest
    return (item :: items, rest)
  | _ + 1, _ => none

def readMember? : Nat → List Char → Option ((String × Json) × List Char)
  | 0, _ => none
  | fuel + 1, '"' :: rest => do
    let (key, rest) ← readString? rest
    if rest.head? = some ':' then
      let (value, rest) ← readValue? fuel rest.tail
      return ((.ofList key, value), rest)
    else none
  | _ + 1, _ => none

/-- The members behind the first one of an object, and the brace that closes it. -/
def readMembers? : Nat → List Char → Option (List (String × Json) × List Char)
  | 0, _ => none
  | _ + 1, '\x7d' :: rest => some ([], rest)
  | fuel + 1, ',' :: rest => do
    let (member, rest) ← readMember? fuel rest
    let (members, rest) ← readMembers? fuel rest
    return (member :: members, rest)
  | _ + 1, _ => none

end

/-- The value that a text spells on one line. -/
def read? (text : String) : Option Json := do
  let (value, rest) ← readValue? text.length text.toList
  if rest = [] then some value else none

/-- A character of a string is written behind a backslash by a letter or by its code, or stands for
itself. -/
theorem escape_cases (c : Char) :
    (∃ letter, escape c = ['\\', letter] ∧ unescape? letter = some c) ∨
      (∃ high < 16, ∃ low < 16, c = Char.ofNat (16 * high + low) ∧
        escape c = ['\\', 'u', '0', '0', Nat.digitChar high, Nat.digitChar low]) ∨
      (c ≠ '"' ∧ c ≠ '\\' ∧ escape c = [c]) := by
  by_cases hletter : c ∈ ['"', '\\', '\x08', '\t', '\n', '\x0c', '\r']
  · left
    simp only [List.mem_cons, List.not_mem_nil, or_false] at hletter
    obtain rfl | rfl | rfl | rfl | rfl | rfl | rfl := hletter
    all_goals exact ⟨_, rfl, rfl⟩
  · right
    simp only [List.mem_cons, List.not_mem_nil, or_false, not_or] at hletter
    obtain ⟨h₁, h₂, h₃, h₄, h₅, h₆, h₇⟩ := hletter
    simp only [escape, h₁, h₂, h₃, h₄, h₅, h₆, h₇, if_false]
    by_cases hcode : c.toNat < 0x20
    · left
      refine ⟨c.toNat / 16, by omega, c.toNat % 16, by omega, ?_, if_pos hcode⟩
      rw [Nat.div_add_mod, Char.ofNat_toNat]
    · right
      exact ⟨h₁, h₂, if_neg hcode⟩

theorem hexValue?_digitChar {n : Nat} (h : n < 16) : hexValue? (Nat.digitChar n) = some n := by
  decide +revert

theorem readString?_escape_append (c : Char) (text : List Char) :
    readString? (escape c ++ text) =
      (readString? text).map fun (cs, rest) => (c :: cs, rest) := by
  obtain ⟨letter, hescape, hletter⟩ | ⟨high, hhigh, low, hlow, rfl, hescape⟩ |
    ⟨hquote, hslash, hescape⟩ := escape_cases c
  · have hu : letter ≠ 'u' := by
      rintro rfl
      cases hletter
    rw [hescape]
    simp [readString?, hu, hletter]
  · rw [hescape]
    simp [readString?, hexValue?_digitChar, hhigh, hlow]
  · rw [hescape]
    simp [readString?, hslash]

theorem readString?_flatMap_escape (cs rest : List Char) :
    readString? (cs.flatMap escape ++ '"' :: rest) = some (cs, rest) := by
  induction cs with
  | nil => rfl
  | cons c cs ih =>
    rw [List.flatMap_cons, List.append_assoc, readString?_escape_append, ih]
    rfl

/-- A text that does not go on with a digit. -/
def Stops (rest : List Char) : Prop :=
  ∀ c ∈ rest.head?, c.isDigit = false

theorem stops_cons {c : Char} {rest : List Char} (h : c.isDigit = false) : Stops (c :: rest) := by
  simpa [Stops] using h

theorem readNat?_toDigits (n : Nat) {rest : List Char} (h : Stops rest) :
    readNat? (Nat.toDigits 10 n ++ rest) = some (n, rest) := by
  have hdigit : ∀ c ∈ Nat.toDigits 10 n, c.isDigit = true := fun c hc =>
    Nat.isDigit_of_mem_toDigits (by decide) (by decide) hc
  have hrest : rest.takeWhile Char.isDigit = [] ∧ rest.dropWhile Char.isDigit = rest := by
    cases rest with
    | nil => exact ⟨rfl, rfl⟩
    | cons c rest => simp [h c rfl]
  rw [readNat?, List.takeWhile_append_of_pos hdigit, List.dropWhile_append_of_pos hdigit, hrest.1,
    hrest.2, List.append_nil, Text.readDigits?, if_pos, Nat.ofDigitChars_ten_toDigits]
  · rfl
  · exact ⟨by simp, List.all_eq_true.2 hdigit⟩

theorem readInt?_writeInt (value : Int) {rest : List Char} (h : Stops rest) :
    readInt? (writeInt value rest) = some (value, rest) := by
  cases value with
  | negSucc n =>
    rw [writeInt, readInt?, readNat?_toDigits _ h]
    rfl
  | ofNat n =>
    have hread := readNat?_toDigits n h
    rw [writeInt, readInt?]
    · rw [hread]
      rfl
    · -- digits do not begin with a sign
      intro text heq
      rw [heq] at hread
      cases hread

/-- A digit, or a sign. -/
theorem exists_writeInt_eq_cons (value : Int) (rest : List Char) :
    ∃ c text, writeInt value rest = c :: text ∧ (c.isDigit = true ∨ c = '-') := by
  cases value with
  | negSucc n => exact ⟨_, _, rfl, .inr rfl⟩
  | ofNat n =>
    cases hdigits : Nat.toDigits 10 n with
    | nil => exact absurd hdigits (by simp)
    | cons c digits =>
      have hc : c ∈ Nat.toDigits 10 n := hdigits ▸ List.mem_cons_self
      refine ⟨c, digits ++ rest, by rw [writeInt, hdigits, List.cons_append], .inl ?_⟩
      exact Nat.isDigit_of_mem_toDigits (by decide) (by decide) hc

theorem readValue?_writeInt (fuel : Nat) (value : Int) {rest : List Char} (h : Stops rest) :
    readValue? (fuel + 1) (writeInt value rest) = some (.integer value, rest) := by
  have hread := readInt?_writeInt value h
  obtain ⟨c, text, heq, hc⟩ := exists_writeInt_eq_cons value rest
  rw [heq] at hread ⊢
  -- no other value begins with a digit or a sign
  have hne : c ∉ ['n', 't', 'f', '"', '[', '\x7b'] := by
    intro hmem
    simp only [List.mem_cons, List.not_mem_nil, or_false] at hmem
    obtain rfl | rfl | rfl | rfl | rfl | rfl := hmem
    all_goals exact absurd hc (by decide)
  simp only [List.mem_cons, List.not_mem_nil, or_false, not_or] at hne
  simp [readValue?, hread, hne]

theorem length_lt_writeInt (value : Int) (rest : List Char) :
    rest.length < (writeInt value rest).length := by
  have hpos (n : Nat) : 0 < (Nat.toDigits 10 n).length := List.length_pos_iff.2 (by simp)
  cases value with
  | ofNat n =>
    have hn := hpos n
    simp only [writeInt, List.length_append]
    omega
  | negSucc n =>
    simp only [writeInt, List.length_cons, List.length_append]
    omega

theorem length_lt_writeString (key : String) (text : List Char) :
    text.length < (writeString key text).length := by
  simp only [writeString, List.length_cons, List.length_append]
  omega

mutual

/-- No text of a value is empty. -/
theorem length_lt_write (layout : Layout) (depth : Nat) (rest : List Char) :
    (value : Json) → rest.length < (value.write layout depth rest).length
  | .null | .bool true | .bool false => by
    rw [write, List.length_append]
    exact Nat.lt_add_of_pos_left (by decide +kernel)
  | .array [] | .object [] => by
    simp only [write, List.length_cons]
    omega
  | .string value => length_lt_writeString value rest
  | .integer value => length_lt_writeInt value rest
  | .array (item :: items) => by
    have hitems := length_le_writeItems layout (depth + 1)
      (layout.lineBreak depth ++ ']' :: rest) items
    have hitem := length_lt_write layout (depth + 1)
      (writeItems layout (depth + 1) items (layout.lineBreak depth ++ ']' :: rest)) item
    simp only [write, List.length_cons, List.length_append] at *
    omega
  | .object ((key, value) :: members) => by
    have hmembers := length_le_writeMembers layout (depth + 1)
      (layout.lineBreak depth ++ '\x7d' :: rest) members
    have hvalue := length_lt_write layout (depth + 1)
      (writeMembers layout (depth + 1) members (layout.lineBreak depth ++ '\x7d' :: rest)) value
    simp only [write, writeString, List.length_cons, List.length_append] at *
    omega

theorem length_le_writeItems (layout : Layout) (depth : Nat) (rest : List Char) :
    (items : List Json) → rest.length ≤ (writeItems layout depth items rest).length
  | [] => Nat.le_refl _
  | item :: items => by
    have hitems := length_le_writeItems layout depth rest items
    have hitem := length_lt_write layout depth (writeItems layout depth items rest) item
    simp only [writeItems, List.length_cons, List.length_append] at *
    omega

theorem length_le_writeMembers (layout : Layout) (depth : Nat) (rest : List Char) :
    (members : List (String × Json)) → rest.length ≤ (writeMembers layout depth members rest).length
  | [] => Nat.le_refl _
  | (key, value) :: members => by
    have hmembers := length_le_writeMembers layout depth rest members
    have hvalue := length_lt_write layout depth (writeMembers layout depth members rest) value
    simp only [writeMembers, writeString, List.length_cons, List.length_append] at *
    omega

end

/-- The text of a value does not begin with a closing bracket. -/
theorem head?_write_ne (depth : Nat) (value : Json) (rest : List Char) :
    (value.write .compact depth rest).head? ≠ some ']' := by
  cases value with
  | null => simp [write]
  | bool value => cases value <;> simp [write]
  | integer value =>
    obtain ⟨c, text, heq, hc⟩ := exists_writeInt_eq_cons value rest
    rw [write, heq]
    rintro ⟨⟩
    exact absurd hc (by decide)
  | string value => simp [write, writeString]
  | array items => cases items <;> simp [write]
  | object members => cases members <;> simp [write]

theorem stops_writeItems (depth : Nat) (items : List Json) (rest : List Char) :
    Stops (writeItems .compact depth items (']' :: rest)) := by
  cases items with
  | nil => exact stops_cons (by decide)
  | cons item items => exact stops_cons (by decide)

theorem stops_writeMembers (depth : Nat) (members : List (String × Json)) (rest : List Char) :
    Stops (writeMembers .compact depth members ('\x7d' :: rest)) := by
  cases members with
  | nil => exact stops_cons (by decide)
  | cons member members => exact stops_cons (by decide)

theorem readMember?_writeString {text rest : List Char} {value : Json} (key : String)
    (h : ∀ fuel, text.length ≤ fuel → readValue? fuel text = some (value, rest)) (fuel : Nat)
    (hfuel : (writeString key (':' :: text)).length ≤ fuel) :
    readMember? fuel (writeString key (':' :: text)) = some ((key, value), rest) := by
  simp only [writeString, List.length_cons, List.length_append] at hfuel ⊢
  cases fuel with
  | zero => omega
  | succ fuel => simp [readMember?, readString?_flatMap_escape, h fuel (by omega)]

mutual

theorem readValue?_write (depth : Nat) : (value : Json) → (fuel : Nat) → (rest : List Char) →
    (value.write .compact depth rest).length ≤ fuel → Stops rest →
      readValue? fuel (value.write .compact depth rest) = some (value, rest)
  | value, 0, rest, hfuel, _ => by
    have hlt := length_lt_write .compact depth rest value
    omega
  | .null, _ + 1, _, _, _ | .bool true, _ + 1, _, _, _ | .bool false, _ + 1, _, _, _
  | .array [], _ + 1, _, _, _ | .object [], _ + 1, _, _, _ => by
    simp [write, readValue?]
  | .integer value, fuel + 1, _, _, hrest => readValue?_writeInt fuel value hrest
  | .string value, _ + 1, _, _, _ => by
    simp [write, writeString, readValue?, readString?_flatMap_escape]
  | .array (item :: items), fuel + 1, rest, hfuel, _ => by
    simp only [write, Layout.lineBreak_compact, List.nil_append, List.length_cons] at hfuel ⊢
    have hlt := length_lt_write .compact (depth + 1)
      (writeItems .compact (depth + 1) items (']' :: rest)) item
    have hitem := readValue?_write (depth + 1) item fuel _ (by omega)
      (stops_writeItems (depth + 1) items rest)
    have hitems := readItems?_writeItems (depth + 1) items fuel rest (by omega)
    rw [readValue?, if_neg (head?_write_ne _ _ _), hitem]
    simp [hitems]
  | .object ((key, value) :: members), fuel + 1, rest, hfuel, _ => by
    simp only [write, Layout.lineBreak_compact, Layout.colon_compact, List.nil_append,
      List.cons_append, List.length_cons] at hfuel ⊢
    have hlt := length_lt_write .compact (depth + 1)
      (writeMembers .compact (depth + 1) members ('\x7d' :: rest)) value
    have hkey := length_lt_writeString key (':' :: value.write .compact (depth + 1)
      (writeMembers .compact (depth + 1) members ('\x7d' :: rest)))
    rw [List.length_cons] at hkey
    have hvalue := fun fuel hfuel => readValue?_write (depth + 1) value fuel _ hfuel
      (stops_writeMembers (depth + 1) members rest)
    have hmember := readMember?_writeString key hvalue fuel (by omega)
    have hmembers := readMembers?_writeMembers (depth + 1) members fuel rest (by omega)
    rw [readValue?, if_neg (by simp [writeString]), hmember]
    simp [hmembers]

theorem readItems?_writeItems (depth : Nat) : (items : List Json) → (fuel : Nat) →
    (rest : List Char) → (writeItems .compact depth items (']' :: rest)).length ≤ fuel →
      readItems? fuel (writeItems .compact depth items (']' :: rest)) = some (items, rest)
  | items, 0, rest, hfuel => by
    have hle := length_le_writeItems .compact depth (']' :: rest) items
    simp only [List.length_cons] at hle
    omega
  | [], fuel + 1, _, _ => by simp [writeItems, readItems?]
  | item :: items, fuel + 1, rest, hfuel => by
    simp only [writeItems, Layout.lineBreak_compact, List.nil_append, List.length_cons] at hfuel ⊢
    have hlt := length_lt_write .compact depth (writeItems .compact depth items (']' :: rest)) item
    have hitem := readValue?_write depth item fuel _ (by omega) (stops_writeItems depth items rest)
    have hitems := readItems?_writeItems depth items fuel rest (by omega)
    simp [readItems?, hitem, hitems]

theorem readMembers?_writeMembers (depth : Nat) : (members : List (String × Json)) →
    (fuel : Nat) → (rest : List Char) →
    (writeMembers .compact depth members ('\x7d' :: rest)).length ≤ fuel →
      readMembers? fuel (writeMembers .compact depth members ('\x7d' :: rest)) =
        some (members, rest)
  | members, 0, rest, hfuel => by
    have hle := length_le_writeMembers .compact depth ('\x7d' :: rest) members
    simp only [List.length_cons] at hle
    omega
  | [], fuel + 1, _, _ => by simp [writeMembers, readMembers?]
  | (key, value) :: members, fuel + 1, rest, hfuel => by
    simp only [writeMembers, Layout.lineBreak_compact, Layout.colon_compact, List.nil_append,
      List.cons_append, List.length_cons] at hfuel ⊢
    have hlt := length_lt_write .compact depth
      (writeMembers .compact depth members ('\x7d' :: rest)) value
    have hkey := length_lt_writeString key (':' :: value.write .compact depth
      (writeMembers .compact depth members ('\x7d' :: rest)))
    rw [List.length_cons] at hkey
    have hvalue := fun fuel hfuel => readValue?_write depth value fuel _ hfuel
      (stops_writeMembers depth members rest)
    have hmember := readMember?_writeString key hvalue fuel (by omega)
    have hmembers := readMembers?_writeMembers depth members fuel rest (by omega)
    rw [readMembers?, hmember]
    simp [hmembers]

end

/-- Every value can be read back from its text on one line. -/
theorem read?_compact (value : Json) : read? value.compact = some value := by
  have hread := readValue?_write 0 value (value.write .compact 0 []).length [] (Nat.le_refl _)
    (fun c hc => by cases hc)
  simp [read?, compact, render, hread]

end Scopewise.Json
