import Assembly.Collection.NameSet

/-!
Finite maps from names, kept in ascending order of the names. An insertion replaces the value that
the name had before.
-/

namespace Assembly

variable {α : Type}

/-- Puts a value under a name into a list of pairs with ascending names. -/
def insertEntry (name : String) (value : α) : List (String × α) → List (String × α)
  | [] => [(name, value)]
  | first :: rest =>
    if name < first.1 then (name, value) :: first :: rest
    else if first.1 < name then first :: insertEntry name value rest
    else (name, value) :: rest

theorem mem_insertEntry {name : String} {value : α} {entry : String × α}
    {entries : List (String × α)} (member : entry ∈ insertEntry name value entries) :
    entry = (name, value) ∨ entry ∈ entries := by
  induction entries with
  | nil => simpa [insertEntry] using member
  | cons first rest ih =>
    rw [insertEntry] at member
    split at member
    · simpa using member
    · split at member
      · rcases List.mem_cons.mp member with rfl | inRest
        · simp
        · rcases ih inRest with h | h <;> simp [h]
      · rcases List.mem_cons.mp member with rfl | inRest
        · simp
        · simp [inRest]

theorem pairwise_insertEntry {name : String} {value : α} {entries : List (String × α)}
    (ascending : entries.Pairwise (·.1 < ·.1)) :
    (insertEntry name value entries).Pairwise (·.1 < ·.1) := by
  induction entries with
  | nil => simp [insertEntry]
  | cons first rest ih =>
    have head {other : String × α} (inRest : other ∈ rest) : first.1 < other.1 :=
      List.rel_of_pairwise_cons ascending inRest
    rw [insertEntry]
    split
    · next below =>
      refine ascending.cons fun other member => ?_
      rcases List.mem_cons.mp member with rfl | inRest
      · exact below
      · exact String.lt_trans below (head inRest)
    · split
      · next above =>
        refine (ih ascending.of_cons).cons fun other member => ?_
        rcases mem_insertEntry member with rfl | inRest
        · exact above
        · exact head inRest
      · next notBelow notAbove =>
        have same := name_eq_of_not_lt notBelow notAbove
        exact ascending.of_cons.cons fun other inRest => same ▸ head inRest

theorem lookup_entries_cons {name : String} {first : String × α} {rest : List (String × α)} :
    (first :: rest).lookup name = if name = first.1 then some first.2 else rest.lookup name := by
  change (match name == first.1 with
    | true => some first.2
    | false => rest.lookup name) = _
  by_cases same : name = first.1
  · simp [same]
  · rw [if_neg same, beq_eq_false_iff_ne.mpr same]

theorem lookup_insertEntry {name other : String} {value : α} {entries : List (String × α)} :
    (insertEntry name value entries).lookup other =
      if other = name then some value else entries.lookup other := by
  induction entries with
  | nil => exact lookup_entries_cons
  | cons first rest ih =>
    rw [insertEntry]
    split
    · exact lookup_entries_cons
    · split
      · next notBelow above =>
        rw [lookup_entries_cons, lookup_entries_cons, ih]
        by_cases same : other = first.1
        · have differs : other ≠ name := fun equal =>
            String.lt_irrefl first.1 (by rwa [← same.symm.trans equal] at above)
          rw [if_pos same, if_neg differs, if_pos same]
        · rw [if_neg same, if_neg same]
      · next notBelow notAbove =>
        have same := name_eq_of_not_lt notBelow notAbove
        rw [lookup_entries_cons, lookup_entries_cons, ← same]
        split <;> rfl

structure NameMap (α : Type) where
  entries : List (String × α)
  ascending : entries.Pairwise (·.1 < ·.1)
deriving DecidableEq

namespace NameMap

def empty : NameMap α := ⟨[], .nil⟩

instance : Inhabited (NameMap α) := ⟨empty⟩

instance : EmptyCollection (NameMap α) := ⟨empty⟩

def get? (map : NameMap α) (name : String) : Option α :=
  map.entries.lookup name

def insert (map : NameMap α) (name : String) (value : α) : NameMap α :=
  ⟨insertEntry name value map.entries, pairwise_insertEntry map.ascending⟩

/-- Inserts the pairs from left to right, so that the last pair of a name counts. -/
def insertAll (map : NameMap α) (pairs : List (String × α)) : NameMap α :=
  pairs.foldl (fun map (name, value) => map.insert name value) map

def ofList (pairs : List (String × α)) : NameMap α :=
  empty.insertAll pairs

/-- Leaves out a name with its value. -/
def erase (map : NameMap α) (name : String) : NameMap α :=
  ⟨map.entries.filter (·.1 ≠ name), map.ascending.filter _⟩

/-- The same names with other values. -/
def mapValues {β : Type} (f : α → β) (map : NameMap α) : NameMap β :=
  ⟨map.entries.map fun (name, value) => (name, f value), by
    refine List.pairwise_map.mpr (map.ascending.imp ?_)
    exact fun below => below⟩

@[simp]
theorem get?_empty {name : String} : (empty : NameMap α).get? name = none := rfl

theorem get?_insert {map : NameMap α} {name other : String} {value : α} :
    (map.insert name value).get? other = if other = name then some value else map.get? other :=
  lookup_insertEntry

theorem insertAll_cons {map : NameMap α} {name : String} {value : α} {rest : List (String × α)} :
    map.insertAll ((name, value) :: rest) = (map.insert name value).insertAll rest := rfl

theorem get?_insertAll {map : NameMap α} {pairs : List (String × α)} {name : String} :
    (map.insertAll pairs).get? name
      = ((pairs.reverse.find? (·.1 = name)).map (·.2)).or (map.get? name) := by
  induction pairs generalizing map with
  | nil => rfl
  | cons first rest ih =>
    rw [insertAll_cons, ih, get?_insert, List.reverse_cons, List.find?_append]
    cases rest.reverse.find? (·.1 = name) with
    | some found => rfl
    | none =>
      by_cases same : name = first.1
      · simp [same]
      · simp [same, Ne.symm same]

/-- The last pair of a name counts. -/
theorem get?_ofList {pairs : List (String × α)} {name : String} :
    (ofList pairs).get? name = (pairs.reverse.find? (·.1 = name)).map (·.2) := by
  rw [ofList, get?_insertAll, get?_empty, Option.or_none]

theorem get?_mapValues {β : Type} {f : α → β} {map : NameMap α} {name : String} :
    (map.mapValues f).get? name = (map.get? name).map f := by
  obtain ⟨entries, ascending⟩ := map
  change (entries.map fun (name, value) => (name, f value)).lookup name
    = (entries.lookup name).map f
  induction entries with
  | nil => rfl
  | cons first rest ih =>
    rw [List.map_cons, lookup_entries_cons, lookup_entries_cons, ih ascending.of_cons, apply_ite
      (Option.map f)]
    rfl

theorem get?_erase {map : NameMap α} {name other : String} :
    (map.erase name).get? other = if other = name then none else map.get? other := by
  obtain ⟨entries, ascending⟩ := map
  change (entries.filter (·.1 ≠ name)).lookup other
    = if other = name then none else entries.lookup other
  induction entries with
  | nil => simp
  | cons first rest ih =>
    by_cases kept : first.1 = name
    · rw [List.filter_cons_of_neg (by simpa using kept), ih ascending.of_cons,
        lookup_entries_cons, kept]
      split <;> rfl
    · rw [List.filter_cons_of_pos (by simpa using kept), lookup_entries_cons,
        lookup_entries_cons, ih ascending.of_cons]
      by_cases same : other = first.1
      · simp [same, kept]
      · simp [same]

/-! ### Lists under names -/

/-- The items under a name, none if the name has no list. -/
def listed (map : NameMap (List α)) (name : String) : List α :=
  (map.get? name).getD []

/-- Puts an item behind those that are listed under its name. -/
def push (map : NameMap (List α)) (name : String) (item : α) : NameMap (List α) :=
  map.insert name (map.listed name ++ [item])

/-- Lists items under their names. Those of one name keep their order. -/
def listedBy (nameOf : α → String) (items : List α) : NameMap (List α) :=
  items.foldl (fun map item => map.push (nameOf item) item) empty

theorem listed_push {map : NameMap (List α)} {name other : String} {item : α} :
    (map.push name item).listed other
      = map.listed other ++ if other = name then [item] else [] := by
  unfold listed push
  rw [get?_insert]
  by_cases same : other = name
  · simp [same, listed]
  · simp [same]

theorem listed_erase {map : NameMap (List α)} {name other : String} :
    (map.erase name).listed other = if other = name then [] else map.listed other := by
  unfold listed
  rw [get?_erase]
  split <;> rfl

theorem listed_foldl_push {map : NameMap (List α)} {nameOf : α → String} {items : List α}
    {name : String} :
    (items.foldl (fun map item => map.push (nameOf item) item) map).listed name
      = map.listed name ++ items.filter (nameOf · = name) := by
  induction items generalizing map with
  | nil => simp
  | cons item rest ih =>
    rw [List.foldl_cons, ih, listed_push, List.append_assoc, List.filter_cons]
    by_cases same : nameOf item = name
    · simp [same]
    · simp [same, Ne.symm same]

theorem listed_listedBy {nameOf : α → String} {items : List α} {name : String} :
    (listedBy nameOf items).listed name = items.filter (nameOf · = name) :=
  listed_foldl_push

end NameMap

end Assembly
