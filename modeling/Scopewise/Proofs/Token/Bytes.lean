import Scopewise.Token.Scan
import Scopewise.Token.Window

namespace Scopewise.Token

variable {text rest : List Char} {n : Nat}

@[simp] theorem byteSize_cons (c : Char) (text : List Char) :
    byteSize (c :: text) = c.utf8Size + byteSize text := rfl

@[simp] theorem byteSize_append (before rest : List Char) :
    byteSize (before ++ rest) = byteSize before + byteSize rest := by
  induction before with
  | nil => exact (Nat.zero_add _).symm
  | cons c before ih => simp [ih, Nat.add_assoc]

@[simp] theorem utf8ByteSize_ofList (text : List Char) :
    (String.ofList text).utf8ByteSize = byteSize text := by
  induction text with
  | nil => rfl
  | cons c text ih =>
    rw [String.ofList_cons, String.utf8ByteSize_append, String.utf8ByteSize_singleton, ih,
      byteSize_cons]

theorem byteSize_toList (source : String) : byteSize source.toList = source.utf8ByteSize := by
  rw [← utf8ByteSize_ofList, String.ofList_toList]

theorem byteSize_eq_zero_iff : byteSize text = 0 ↔ text = [] := by
  cases text with
  | nil => exact iff_of_true rfl rfl
  | cons c text => simp [Nat.ne_of_gt c.utf8Size_pos]

theorem byteSize_pos (h : text ≠ []) : 0 < byteSize text :=
  Nat.pos_of_ne_zero fun hzero => h (byteSize_eq_zero_iff.1 hzero)

/-- Bytes are taken off in whole characters or not at all. -/
theorem dropBytes?_eq_some_iff :
    dropBytes? n text = some rest ↔ ∃ before, text = before ++ rest ∧ byteSize before = n := by
  fun_induction dropBytes? n text with
  | case1 text =>
    constructor
    · intro h
      exact ⟨[], Option.some.inj h, rfl⟩
    · rintro ⟨before, rfl, hsize⟩
      rw [byteSize_eq_zero_iff.1 hsize]
      rfl
  | case2 n =>
    constructor
    · intro h
      cases h
    · rintro ⟨before, hsplit, hsize⟩
      obtain ⟨rfl, -⟩ := List.append_eq_nil_iff.1 hsplit.symm
      cases hsize
  | case3 n c text hfits ih =>
    rw [ih]
    constructor
    · rintro ⟨before, rfl, hsize⟩
      refine ⟨c :: before, rfl, ?_⟩
      rw [byteSize_cons, hsize, Nat.add_sub_of_le hfits]
    · rintro ⟨before, hsplit, hsize⟩
      cases before with
      | nil => cases hsize
      | cons d before =>
        obtain ⟨rfl, rfl⟩ := List.cons.inj hsplit
        exact ⟨before, rfl, Nat.eq_sub_of_add_eq' hsize⟩
  | case4 n c text hfits =>
    constructor
    · intro h
      cases h
    · rintro ⟨before, hsplit, hsize⟩
      cases before with
      | nil => cases hsize
      | cons d before =>
        obtain ⟨rfl, -⟩ := List.cons.inj hsplit
        rw [byteSize_cons] at hsize
        omega

/-- What is left is there exactly at the positions of the string. -/
theorem exists_dropBytes?_iff_isValid {source : String} :
    (∃ rest, dropBytes? n source.toList = some rest) ↔ (String.Pos.Raw.mk n).IsValid source := by
  simp only [dropBytes?_eq_some_iff, String.Pos.Raw.isValid_iff_exists_append]
  constructor
  · rintro ⟨rest, before, hsplit, rfl⟩
    refine ⟨String.ofList before, String.ofList rest, ?_, ?_⟩
    · rw [← String.ofList_append, ← hsplit, String.ofList_toList]
    · rw [String.rawEndPos, utf8ByteSize_ofList]
  · rintro ⟨before, rest, rfl, hend⟩
    refine ⟨rest.toList, before.toList, String.toList_append, ?_⟩
    rw [byteSize_toList]
    exact (congrArg String.Pos.Raw.byteIdx hend).symm

/-- The first `n` bytes of a text, if they end where a character ends. -/
def takeBytes? (n : Nat) (text : List Char) : Option (List Char) :=
  (dropBytes? n text).map fun rest => text.take (text.length - rest.length)

theorem takeBytes?_append (before rest : List Char) :
    takeBytes? (byteSize before) (before ++ rest) = some before := by
  have hrest : dropBytes? (byteSize before) (before ++ rest) = some rest :=
    dropBytes?_eq_some_iff.2 ⟨before, rfl, rfl⟩
  rw [takeBytes?, hrest, Option.map_some, List.length_append, Nat.add_sub_cancel,
    List.take_left]

end Scopewise.Token
