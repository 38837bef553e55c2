namespace Scopewise

/-- The members are listed in increasing order, so equal sets are equal values. -/
structure NameSet where
  toList : List String
  increasing : toList.Pairwise (· < ·)
deriving DecidableEq

namespace NameSet

/-- Puts a name in its place in an increasing list that may hold it already. -/
def place (name : String) : List String → List String
  | [] => [name]
  | head :: tail =>
    if name < head then name :: head :: tail
    else if head < name then head :: place name tail
    else head :: tail

private theorem eq_of_not_lt {a b : String} (hab : ¬a < b) (hba : ¬b < a) : a = b :=
  String.le_antisymm (String.not_lt.1 hba) (String.not_lt.1 hab)

theorem mem_place {name x : String} {names : List String} :
    x ∈ place name names ↔ x = name ∨ x ∈ names := by
  induction names with
  | nil => simp [place]
  | cons head tail ih =>
    rw [place]
    split
    · simp
    · split
      · simp only [List.mem_cons, ih]
        exact or_left_comm
      · next hlt hgt => simp [eq_of_not_lt hlt hgt]

theorem pairwise_place {name : String} {names : List String} (h : names.Pairwise (· < ·)) :
    (place name names).Pairwise (· < ·) := by
  induction names with
  | nil => simp [place]
  | cons head tail ih =>
    obtain ⟨hhead, htail⟩ := List.pairwise_cons.1 h
    rw [place]
    split
    · next hlt =>
      refine List.pairwise_cons.2 ⟨fun x hx => ?_, h⟩
      rcases List.mem_cons.1 hx with rfl | hx
      · exact hlt
      · exact String.lt_trans hlt (hhead x hx)
    · split
      · next hgt =>
        refine List.pairwise_cons.2 ⟨fun x hx => ?_, ih htail⟩
        rcases mem_place.1 hx with rfl | hx
        · exact hgt
        · exact hhead x hx
      · exact h

instance : Membership String NameSet where
  mem set name := name ∈ set.toList

instance : EmptyCollection NameSet where
  emptyCollection := ⟨[], List.Pairwise.nil⟩

instance : Inhabited NameSet where
  default := ∅

instance (name : String) (set : NameSet) : Decidable (name ∈ set) :=
  inferInstanceAs (Decidable (name ∈ set.toList))

def contains (set : NameSet) (name : String) : Bool :=
  set.toList.contains name

def insert (set : NameSet) (name : String) : NameSet where
  toList := place name set.toList
  increasing := pairwise_place set.increasing

def erase (set : NameSet) (name : String) : NameSet where
  toList := set.toList.filter (· ≠ name)
  increasing := set.increasing.filter _

def ofList (names : List String) : NameSet :=
  names.foldl insert ∅

@[simp]
theorem mem_toList {name : String} {set : NameSet} : name ∈ set.toList ↔ name ∈ set :=
  Iff.rfl

@[simp]
theorem not_mem_empty {name : String} : name ∉ (∅ : NameSet) :=
  List.not_mem_nil

@[simp]
theorem contains_iff {name : String} {set : NameSet} : set.contains name = true ↔ name ∈ set :=
  List.contains_iff_mem

@[simp]
theorem mem_insert {name x : String} {set : NameSet} :
    x ∈ set.insert name ↔ x = name ∨ x ∈ set :=
  mem_place

@[simp]
theorem mem_erase {name x : String} {set : NameSet} :
    x ∈ set.erase name ↔ x ≠ name ∧ x ∈ set := by
  change x ∈ set.toList.filter (· ≠ name) ↔ _
  simp [and_comm]

private theorem eq_of_mem_iff {as bs : List String} (ha : as.Pairwise (· < ·))
    (hb : bs.Pairwise (· < ·)) (h : ∀ x, x ∈ as ↔ x ∈ bs) : as = bs := by
  induction as generalizing bs with
  | nil => exact (List.eq_nil_iff_forall_not_mem.2 fun x hx => List.not_mem_nil ((h x).2 hx)).symm
  | cons a as ih =>
    cases bs with
    | nil => exact absurd ((h a).1 List.mem_cons_self) List.not_mem_nil
    | cons b bs =>
      obtain ⟨ha', has⟩ := List.pairwise_cons.1 ha
      obtain ⟨hb', hbs⟩ := List.pairwise_cons.1 hb
      have hab : a = b := by
        rcases List.mem_cons.1 ((h a).1 List.mem_cons_self) with hab | hab
        · exact hab
        · rcases List.mem_cons.1 ((h b).2 List.mem_cons_self) with hba | hba
          · exact hba.symm
          · exact absurd (ha' b hba) (String.lt_asymm (hb' a hab))
      subst hab
      refine congrArg _ (ih has hbs fun x => ⟨fun hx => ?_, fun hx => ?_⟩)
      · rcases List.mem_cons.1 ((h x).1 (List.mem_cons_of_mem _ hx)) with rfl | hx'
        · exact absurd (ha' x hx) (String.lt_irrefl x)
        · exact hx'
      · rcases List.mem_cons.1 ((h x).2 (List.mem_cons_of_mem _ hx)) with rfl | hx'
        · exact absurd (hb' x hx) (String.lt_irrefl x)
        · exact hx'

@[ext]
theorem ext {s t : NameSet} (h : ∀ x, x ∈ s ↔ x ∈ t) : s = t := by
  obtain ⟨as, ha⟩ := s
  obtain ⟨bs, hb⟩ := t
  have hab : as = bs := eq_of_mem_iff ha hb h
  subst hab
  rfl

end NameSet

end Scopewise
