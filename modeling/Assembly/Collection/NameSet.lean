/-!
Finite sets of names, kept in ascending order without repetition, so that equal sets are equal values
and are always listed alike. Names are compared by their code points.
-/

namespace Assembly

/-- Puts a name into an ascending list, unless the list holds it already. -/
def insertName (name : String) : List String → List String
  | [] => [name]
  | first :: rest =>
    if name < first then name :: first :: rest
    else if first < name then first :: insertName name rest
    else first :: rest

theorem name_eq_of_not_lt {first second : String} (notBelow : ¬first < second)
    (notAbove : ¬second < first) : first = second :=
  String.le_antisymm (String.not_lt.mp notAbove) (String.not_lt.mp notBelow)

theorem mem_insertName {name other : String} {names : List String} :
    other ∈ insertName name names ↔ other = name ∨ other ∈ names := by
  induction names with
  | nil => simp [insertName]
  | cons first rest ih =>
    rw [insertName]
    split
    · simp
    · split
      · simp only [List.mem_cons, ih]
        constructor
        · rintro (h | h | h) <;> simp [h]
        · rintro (h | h | h) <;> simp [h]
      · next notBelow notAbove =>
        have same := name_eq_of_not_lt notBelow notAbove
        simp [same]

theorem pairwise_insertName {name : String} {names : List String}
    (ascending : names.Pairwise (· < ·)) : (insertName name names).Pairwise (· < ·) := by
  induction names with
  | nil => simp [insertName]
  | cons first rest ih =>
    have head {other : String} (inRest : other ∈ rest) : first < other :=
      List.rel_of_pairwise_cons ascending inRest
    rw [insertName]
    split
    · next below =>
      refine ascending.cons fun other member => ?_
      rcases List.mem_cons.mp member with rfl | inRest
      · exact below
      · exact String.lt_trans below (head inRest)
    · split
      · next above =>
        refine (ih ascending.of_cons).cons fun other member => ?_
        rcases mem_insertName.mp member with rfl | inRest
        · exact above
        · exact head inRest
      · exact ascending

structure NameSet where
  toList : List String
  ascending : toList.Pairwise (· < ·)
deriving DecidableEq

namespace NameSet

def empty : NameSet := ⟨[], .nil⟩

instance : Inhabited NameSet := ⟨empty⟩

instance : EmptyCollection NameSet := ⟨empty⟩

instance : Membership String NameSet := ⟨fun set name => name ∈ set.toList⟩

instance {name : String} {set : NameSet} : Decidable (name ∈ set) :=
  inferInstanceAs (Decidable (name ∈ set.toList))

def insert (set : NameSet) (name : String) : NameSet :=
  ⟨insertName name set.toList, pairwise_insertName set.ascending⟩

def union (set : NameSet) (names : List String) : NameSet :=
  names.foldl insert set

def ofList (names : List String) : NameSet :=
  empty.union names

def isEmpty (set : NameSet) : Bool :=
  set.toList.isEmpty

theorem mem_insert {set : NameSet} {name other : String} :
    other ∈ set.insert name ↔ other = name ∨ other ∈ set :=
  mem_insertName

theorem not_mem_empty {name : String} : name ∉ (empty : NameSet) :=
  List.not_mem_nil

theorem mem_union {set : NameSet} {names : List String} {name : String} :
    name ∈ set.union names ↔ name ∈ set ∨ name ∈ names := by
  induction names generalizing set with
  | nil => simp [union]
  | cons first rest ih =>
    rw [union, List.foldl_cons, ← union, ih, mem_insert, List.mem_cons]
    constructor
    · rintro ((h | h) | h) <;> simp [h]
    · rintro (h | h | h) <;> simp [h]

theorem mem_ofList {names : List String} {name : String} : name ∈ ofList names ↔ name ∈ names := by
  simp [ofList, mem_union, not_mem_empty]

end NameSet

end Assembly
