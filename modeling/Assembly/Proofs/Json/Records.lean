import Mathlib.Data.List.Forall2
import Assembly.Json.Decode
import Assembly.Proofs.Json.Reading

/-!
# Records as objects

A record is written as an object with one member for each field. The members may stand in any order, a
field with its default may be left out, and what stands under other names does not count.
-/

namespace Assembly.Json

/-- A field that is written: whether it holds its default, and how its value is written. -/
structure Field where
  name : String
  isDefault : Prop
  form : Value → Prop

/-- The members of an object show the fields. Under other names there are strings. -/
structure Shows (fields : List Field) (members : List (String × Value)) : Prop where
  declared : ∀ field ∈ fields,
    (field.isDefault ∧ members.filter (·.1 == field.name) = [])
      ∨ ∃ value, field.form value ∧ members.filter (·.1 == field.name) = [(field.name, value)]
  others : ∀ entry ∈ members, entry.1 ∉ fields.map Field.name → ∃ text, entry.2 = .string text

def IsObject (fields : List Field) (value : Value) : Prop :=
  ∃ members, value = .object members ∧ Shows fields members

/-- An array whose items show the values. -/
def IsArray {α : Type} (form : α → Value → Prop) (values : List α) (value : Value) : Prop :=
  ∃ items, value = .array items ∧ List.Forall₂ form values items

section Members

variable {members : List (String × Value)} {name : String}

/-- The only member with a name stands between members with other names. -/
theorem exists_split_of_filter {value : Value}
    (hone : members.filter (·.1 == name) = [(name, value)]) :
    ∃ front back, members = front ++ (name, value) :: back
      ∧ (∀ entry ∈ front, entry.1 ≠ name) ∧ ∀ entry ∈ back, entry.1 ≠ name := by
  obtain ⟨front, back, heq, hfront, -, hback⟩ := List.filter_eq_cons_iff.mp hone
  refine ⟨front, back, heq, fun entry hentry => ?_, fun entry hentry => ?_⟩
  · simpa using hfront entry hentry
  · simpa using List.filter_eq_nil_iff.mp hback entry hentry

theorem name_ne_of_filter_eq_nil (hnone : members.filter (·.1 == name) = []) :
    ∀ entry ∈ members, entry.1 ≠ name := fun entry hentry => by
  simpa using List.filter_eq_nil_iff.mp hnone entry hentry

theorem filter_bne_eq_self (hnames : ∀ entry ∈ members, entry.1 ≠ name) :
    members.filter (·.1 != name) = members :=
  List.filter_eq_self.mpr fun entry hentry => by simpa using hnames entry hentry

theorem findIdx_eq_length (hnames : ∀ entry ∈ members, entry.1 ≠ name) :
    members.findIdx (·.1 == name) = members.length :=
  List.findIdx_eq_length.mpr fun entry hentry => by simpa using hnames entry hentry

end Members

namespace Gather

variable {α β : Type} {entries : Entries}

/-- The part is found among the members. -/
def Gives (gather : Gather α) (entries : Entries) (value : α) : Prop :=
  gather entries = .ok value

theorem Gives.map {gather : Gather α} {value : α} (hvalue : gather.Gives entries value) (f : α → β) :
    (f <$> gather).Gives entries (f value) :=
  congrArg (Except.map f) hvalue

theorem Gives.seq {first : Gather (α → β)} {second : Gather α} {f : α → β} {value : α}
    (hfirst : first.Gives entries f) (hsecond : second.Gives entries value) :
    (first <*> second).Gives entries (f value) := by
  change both (first entries) (second entries) = _
  rw [hfirst, hsecond]
  rfl

theorem Gives.ofMembers {gather : Gather α} {members : List (String × Value)} {value : α}
    (hvalue : gather.Gives ⟨members, .missingField⟩ value) :
    gather.ofMembers members = .ok value :=
  congrArg (Except.mapError Prod.snd) hvalue

variable {members : List (String × Value)} {missing : String → Mismatch} {name : String}
  {decode : Decode α}

theorem optional_gives_none (hnone : members.filter (·.1 == name) = []) :
    (optional name decode).Gives ⟨members, missing⟩ none := by
  have hplace := findIdx_eq_length (name_ne_of_filter_eq_nil hnone)
  unfold Gives optional
  simp only [hplace, List.drop_length]

theorem optional_gives_some {written : Value} {value : α}
    (hone : members.filter (·.1 == name) = [(name, written)]) (hdecode : decode written = .ok value) :
    (optional name decode).Gives ⟨members, missing⟩ (some value) := by
  obtain ⟨front, back, rfl, hfront, hback⟩ := exists_split_of_filter hone
  have hplace : (front ++ (name, written) :: back).findIdx (·.1 == name) = front.length := by
    rw [List.findIdx_append, findIdx_eq_length hfront, if_neg (Nat.lt_irrefl _), List.findIdx_cons,
      beq_self_eq_true]
    exact Nat.zero_add _
  have honce : back.any (·.1 == name) = false :=
    List.any_eq_false.mpr fun entry hentry => by simpa using hback entry hentry
  unfold Gives optional
  simp only [hplace, List.drop_left, hdecode, honce]
  rfl

end Gather

section Shows

variable {fields : List Field} {members : List (String × Value)}

theorem Shows.optional {α : Type} (hshows : Shows fields members) {field : Field}
    (hfield : field ∈ fields) {decode : Decode α} {value : α}
    (hdecode : ∀ written, field.form written → decode written = .ok value)
    (missing : String → Mismatch) :
    (field.isDefault ∧ (Gather.optional field.name decode).Gives ⟨members, missing⟩ none)
      ∨ (Gather.optional field.name decode).Gives ⟨members, missing⟩ (some value) := by
  rcases hshows.declared field hfield with ⟨hdefault, hnone⟩ | ⟨written, hform, hone⟩
  · exact .inl ⟨hdefault, Gather.optional_gives_none hnone⟩
  · exact .inr (Gather.optional_gives_some hone (hdecode written hform))

variable {α : Type} (hshows : Shows fields members) {name : String} {form : Value → Prop}
  {decode : Decode α} {value : α} {missing : String → Mismatch}
include hshows

theorem Shows.required (place : Nat) (hfield : fields[place]? = some ⟨name, False, form⟩)
    (hdecode : ∀ written, form written → decode written = .ok value) :
    (Gather.required name decode).Gives ⟨members, missing⟩ value := by
  rcases hshows.optional (List.mem_of_getElem? hfield) hdecode missing with ⟨hdefault, -⟩ | hsome
  · exact hdefault.elim
  · unfold Gather.Gives Gather.required
    rw [hsome]

theorem Shows.withDefault {default : α} (place : Nat)
    (hfield : fields[place]? = some ⟨name, value = default, form⟩)
    (hdecode : ∀ written, form written → decode written = .ok value) :
    (Gather.withDefault name default decode).Gives ⟨members, missing⟩ value := by
  unfold Gather.Gives Gather.withDefault
  rcases hshows.optional (List.mem_of_getElem? hfield) hdecode missing with ⟨hdefault, hnone⟩ | hsome
  · rw [hnone]
    exact congrArg Except.ok hdefault.symm
  · rw [hsome]
    rfl

end Shows

/-- A tag among the members counts no more once it has been read. -/
theorem Shows.without {field : Field} {fields : List Field} {members : List (String × Value)}
    (hshows : Shows (field :: fields) members) (hfresh : field.name ∉ fields.map Field.name) :
    Shows fields (members.filter (·.1 != field.name)) where
  declared other hother := by
    have hne : other.name ≠ field.name := fun heq =>
      hfresh (heq ▸ List.mem_map_of_mem hother)
    have hsame : (members.filter (·.1 != field.name)).filter (·.1 == other.name)
        = members.filter (·.1 == other.name) := by
      rw [List.filter_filter]
      refine List.filter_congr fun entry _ => ?_
      by_cases heq : entry.1 = other.name
      · simp [heq, hne]
      · simp [heq]
    rw [hsame]
    exact hshows.declared other (List.mem_cons_of_mem _ hother)
  others entry hentry hname := by
    obtain ⟨hmem, hne⟩ := List.mem_filter.mp hentry
    refine hshows.others entry hmem fun hdeclared => ?_
    rcases List.mem_cons.mp hdeclared with heq | hdeclared
    · simp [heq] at hne
    · exact hname hdeclared

theorem Shows.plain {fields : List Field} {members : List (String × Value)} {depth : Nat}
    (hshows : Shows fields members)
    (hforms : ∀ field ∈ fields, ∀ value, field.form value → value.Plain depth) :
    ∀ entry ∈ members, entry.2.Plain depth := by
  intro entry hentry
  by_cases hname : entry.1 ∈ fields.map Field.name
  · obtain ⟨field, hfield, heq⟩ := List.mem_map.mp hname
    have hfound : entry ∈ members.filter (·.1 == field.name) :=
      List.mem_filter.mpr ⟨hentry, by simp [heq]⟩
    rcases hshows.declared field hfield with ⟨-, hnone⟩ | ⟨value, hform, hone⟩
    · rw [hnone] at hfound
      cases hfound
    · rw [hone] at hfound
      cases List.mem_singleton.mp hfound
      exact hforms field hfield value hform
  · obtain ⟨text, htext⟩ := hshows.others entry hentry hname
    rw [htext]
    exact .string

/-- An object with all members in the order of the fields shows them. -/
theorem shows_of_forall₂ {fields : List Field} {members : List (String × Value)}
    (hnames : (fields.map Field.name).Nodup)
    (hforms : List.Forall₂ (fun field entry => entry.1 = field.name ∧ field.form entry.2)
      fields members) : Shows fields members := by
  have hmap : members.map Prod.fst = fields.map Field.name := by
    induction hforms with
    | nil => rfl
    | cons hfirst hrest ih => rw [List.map_cons, List.map_cons, hfirst.1, ih hnames.of_cons]
  refine ⟨fun field hfield => .inr ?_, fun entry hentry hname => ?_⟩
  · induction hforms with
    | nil => cases hfield
    | @cons first entry fields members hfirst hrest ih =>
        obtain ⟨hfresh, hnames⟩ := List.nodup_cons.mp hnames
        have hrestMap := (List.cons.inj hmap).2
        rcases List.mem_cons.mp hfield with rfl | hfield
        · refine ⟨entry.2, hfirst.2, ?_⟩
          have hothers : members.filter (·.1 == field.name) = [] := by
            refine List.filter_eq_nil_iff.mpr fun other hother heq => hfresh ?_
            rw [← hrestMap, ← eq_of_beq heq]
            exact List.mem_map_of_mem hother
          rw [List.filter_cons_of_pos (by simp [hfirst.1]), hothers, ← hfirst.1]
        · obtain ⟨value, hvalue, hone⟩ := ih hnames hrestMap hfield
          refine ⟨value, hvalue, ?_⟩
          have hne : first.name ≠ field.name := fun heq =>
            hfresh (heq ▸ List.mem_map_of_mem hfield)
          rw [List.filter_cons_of_neg (by simp [hfirst.1, hne])]
          exact hone
  · rw [← hmap] at hname
    exact absurd (List.mem_map_of_mem hentry) hname

theorem Shows.perm {fields others : List Field} {members : List (String × Value)}
    (hshows : Shows fields members) (hperm : fields.Perm others) : Shows others members where
  declared field hfield := hshows.declared field (hperm.mem_iff.mpr hfield)
  others entry hentry hname := hshows.others entry hentry fun hdeclared =>
    hname ((hperm.map Field.name).mem_iff.mp hdeclared)

/-! ### Parts of records -/

theorem decode_orNull (value : Option String) :
    Decode.option Decode.text (.orNull .string value) = .ok value := by
  cases value <;> rfl

theorem plain_orNull {depth : Nat} (value : Option String) :
    (Value.orNull .string value).Plain depth := by
  cases value with
  | none => exact .null
  | some value => exact .string

theorem IsObject.plain {fields : List Field} {written : Value} {depth : Nat}
    (hobject : IsObject fields written)
    (hforms : ∀ field ∈ fields, ∀ value, field.form value → value.Plain depth) :
    written.Plain (depth + 1) := by
  obtain ⟨members, rfl, hshows⟩ := hobject
  exact .object (hshows.plain hforms)

section Arrays

variable {α : Type} {form : α → Value → Prop} {values : List α} {written : Value}
  (harray : IsArray form values written)
include harray

theorem IsArray.decode {item : Decode α}
    (hitem : ∀ value written, form value written → item written = .ok value) :
    Decode.list item written = .ok values := by
  obtain ⟨items, rfl, hitems⟩ := harray
  change items.mapM item = .ok values
  induction hitems with
  | nil => rfl
  | cons hfirst _ ih =>
      rw [List.mapM_cons, hitem _ _ hfirst, ok_bind, ih]
      rfl

theorem IsArray.plain {depth : Nat}
    (hitem : ∀ value written, form value written → written.Plain depth) :
    written.Plain (depth + 1) := by
  obtain ⟨items, rfl, hitems⟩ := harray
  refine .array ?_
  induction hitems with
  | nil => exact nofun
  | cons hfirst _ ih => exact List.forall_mem_cons.mpr ⟨hitem _ _ hfirst, ih⟩

end Arrays

theorem isArray_map {α : Type} {form : α → Value → Prop} (write : α → Value)
    (hwrite : ∀ value, form value (write value)) (values : List α) :
    IsArray form values (.array (values.map write)) :=
  ⟨_, rfl, List.forall₂_map_right_iff.mpr (List.forall₂_same.mpr fun value _ => hwrite value)⟩

theorem isArray_strings (values : List String) :
    IsArray (fun value written => written = .string value) values (.strings values) := by
  refine isArray_map Value.string (fun value => ?_) values
  rfl

theorem decode_strings (values : List String) :
    Decode.list Decode.text (.strings values) = .ok values :=
  (isArray_strings values).decode fun _ _ hwritten => by
    rw [hwritten]
    rfl

theorem plain_strings {depth : Nat} (values : List String) :
    (Value.strings values).Plain (depth + 1) :=
  (isArray_strings values).plain fun _ _ hwritten => by
    rw [hwritten]
    exact .string

end Assembly.Json
