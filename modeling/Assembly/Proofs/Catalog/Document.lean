import Assembly.Catalog.Document
import Assembly.Proofs.Component.Record

/-!
# Catalogs as documents

A document with the components of a catalog is read as that catalog, whatever the order of the members
and the blanks between them, and whatever else is written in it.
-/

namespace Assembly

open Json

/-- The fields of a component in a document. An index that is left open is not written, or `null`. -/
def Component.entryFields (component : Component) (isOpen : Bool) : List Field :=
  ⟨"declaration_index", isOpen = true,
    (· = if isOpen then .null else .nat component.declarationIndex.toNat)⟩ :: component.fields

/-- The form in which a component is written leaves nothing out. -/
theorem Component.isObject_toJson (component : Component) :
    IsObject (component.entryFields false) component.toJson := by
  have hsites := isArray_map InjectionSite.toJson InjectionSite.isObject_toJson component.sites
  have hconditions := isArray_map Condition.toJson Condition.isObject_toJson component.conditions
  have hhooks := component.hooks.isObject_toJson
  have hperm : (component.fields ++ [(⟨"declaration_index", false = true,
      (· = .nat component.declarationIndex.toNat)⟩ : Field)]).Perm (component.entryFields false) :=
    List.perm_append_singleton _ _
  refine ⟨_, rfl, Shows.perm (shows_of_forall₂ ?_ ?_) hperm⟩
  · simp [fields]
  · simp [fields, hsites, hconditions, hhooks]

namespace Catalog

/-- The document lists the components. The index of a component may be left open. -/
def IsDocument (entries : List (Component × Bool)) (document : Value) : Prop :=
  IsObject
    [⟨"components", False, IsArray (fun entry => IsObject (entry.1.entryFields entry.2)) entries⟩]
    document

/-- The components that a document stands for: where the index is open, the place counts. -/
def placed (entries : List (Component × Bool)) : List Component :=
  entries.mapIdx fun place entry =>
    if entry.2 then entry.1.withIndex (.ofNat place) else entry.1

/-- The index that is written with a component. -/
def writtenIndex (entry : Component × Bool) : Option UInt32 :=
  if entry.2 then none else some entry.1.declarationIndex

variable {spacing : Spacing}

/-! ### Declaration indices -/

theorem indexOfNumber_toNat (index : UInt32) :
    indexOfNumber (.whole index.toNat) = .ok index := by
  have hword : word32? index.toNat = some index :=
    (if_pos index.toNat_lt).trans (congrArg some UInt32.ofNat_toNat)
  unfold indexOfNumber
  simp only [hword]

theorem readIndex_finds_null (level : Nat) :
    Reader.Finds readIndex (Value.null.chars spacing level) none := by
  intro blank rest hblank hrest
  unfold readIndex
  rw [List.append_assoc, skipSpaces_append hblank]
  rfl

theorem readIndex_finds_nat (index : UInt32) (level : Nat) :
    Reader.Finds readIndex ((Value.nat index.toNat).chars spacing level) (some index) := by
  intro blank rest hblank hrest
  have hrange : index.toNat < wordRange64 := Nat.lt_trans index.toNat_lt (by decide)
  have hread : readNumber ((Number.whole index.toNat).chars ++ rest)
      = .ok (.whole index.toNat, rest) := readNumber_chars (by omega) (by omega) hrest
  obtain ⟨c, others, hchars, hc⟩ := exists_chars_whole index.toNat
  obtain ⟨hdelimiter, -, -⟩ := not_isDelimiter_of_number hc
  have hne : c ≠ 'n' := by
    rintro rfl
    rcases hc with heq | hdigit
    · cases heq
    · cases hdigit
  change readIndex (blank ++ (Number.whole index.toNat).chars ++ rest) = _
  rw [hchars, List.cons_append] at hread
  unfold readIndex
  rw [hchars, List.append_assoc, skipSpaces_append hblank, List.cons_append,
    skipSpaces_cons hdelimiter]
  simp only [if_neg hne, if_pos hc, hread, ok_bind, indexOfNumber_toNat]
  rfl

/-! ### Components -/

section Components

variable (hspacing : spacing.Blank) {bound : Nat}
include hspacing

theorem passes_entryMember {level : Nat} {members : List (String × Value)}
    (hnames : ∀ entry ∈ members, entry.1 ≠ "declaration_index")
    (hplain : ∀ entry ∈ members, entry.2.Plain memberNesting)
    (hbound : ∀ entry ∈ members, (entry.2.chars spacing level).length ≤ bound) (state : Entry) :
    Passes (entryMember bound) spacing state (memberTexts spacing level members)
      { state with members := members.reverse ++ state.members } := by
  induction members generalizing state with
  | nil => exact .nil
  | cons first others ih =>
      obtain ⟨hname, hnames⟩ := List.forall_mem_cons.mp hnames
      obtain ⟨hfirst, hplain⟩ := List.forall_mem_cons.mp hplain
      obtain ⟨hsize, hbound⟩ := List.forall_mem_cons.mp hbound
      rw [List.reverse_cons, List.append_assoc]
      refine .cons (fun rest hrest => ?_)
        (ih hnames hplain hbound { state with members := first :: state.members })
      have hadd := addMember_finds hspacing (finds_chars hspacing hfirst hsize) state.members
        first.1 hrest
      unfold entryMember
      simp only [if_neg hname, hadd, ok_bind]
      rfl

theorem entryMember_index {state : Entry} {text : List Char} {index : Option UInt32}
    (hfinds : Reader.Finds readIndex text index) (hstate : state.index = none) {rest : List Char}
    (hrest : Delimited rest) :
    entryMember bound state "declaration_index" (':' :: (spacing.afterColon ++ text ++ rest))
      = .ok ({ state with index := some index }, rest) := by
  have hread := hfinds _ _ hspacing.afterColon hrest
  unfold entryMember
  simp only [if_true, hstate, Option.isSome_none, Bool.false_eq_true, if_false, colon_cons, ok_bind,
    hread]
  rfl

omit hspacing in
theorem readIndex_finds {entry : Component × Bool} {value : Value}
    (hvalue : value = if entry.2 then .null else .nat entry.1.declarationIndex.toNat) (level : Nat) :
    Reader.Finds readIndex (value.chars spacing level) (writtenIndex entry) := by
  obtain ⟨component, isOpen⟩ := entry
  subst hvalue
  cases isOpen with
  | true => exact readIndex_finds_null level
  | false => exact readIndex_finds_nat component.declarationIndex level

/-- The members of a component are collected in their order, without the index. -/
theorem exists_passes_entry {entry : Component × Bool} {members : List (String × Value)}
    (hshows : Shows (entry.1.entryFields entry.2) members) {level : Nat}
    (hbound : ∀ member ∈ members, (member.2.chars spacing level).length ≤ bound) :
    ∃ index : Option (Option UInt32), index.join = writtenIndex entry
      ∧ Passes (entryMember bound) spacing {} (memberTexts spacing level members)
        ⟨index, (members.filter (·.1 != "declaration_index")).reverse⟩ := by
  have hplain : ∀ member ∈ members.filter (·.1 != "declaration_index"),
      member.2.Plain memberNesting :=
    Component.plain (hshows.without (by simp [Component.fields])) 120
  rcases hshows.declared _ List.mem_cons_self with ⟨hopen, hnone⟩ | ⟨value, hvalue, hone⟩
  · have hnames := name_ne_of_filter_eq_nil hnone
    rw [filter_bne_eq_self hnames] at hplain ⊢
    have hpasses := passes_entryMember hspacing hnames hplain hbound {}
    rw [List.append_nil] at hpasses
    exact ⟨none, (if_pos hopen).symm, hpasses⟩
  -- The index may stand anywhere, and what is collected before it and after it is put together.
  · obtain ⟨front, back, rfl, hfront, hback⟩ := exists_split_of_filter hone
    have hkept : (front ++ ("declaration_index", value) :: back).filter
        (·.1 != "declaration_index") = front ++ back := by
      rw [List.filter_append, List.filter_cons_of_neg (by simp), filter_bne_eq_self hfront,
        filter_bne_eq_self hback]
    rw [hkept] at hplain ⊢
    obtain ⟨hplainFront, hplainBack⟩ := List.forall_mem_append.mp hplain
    obtain ⟨hboundFront, hboundIndexed⟩ := List.forall_mem_append.mp hbound
    obtain ⟨-, hboundBack⟩ := List.forall_mem_cons.mp hboundIndexed
    have hpassesFront := passes_entryMember hspacing hfront hplainFront hboundFront {}
    have hpassesBack := passes_entryMember hspacing hback hplainBack hboundBack
      ⟨some (writtenIndex entry), front.reverse⟩
    rw [List.append_nil] at hpassesFront
    refine ⟨some (writtenIndex entry), rfl, ?_⟩
    rw [memberTexts, List.map_append, List.map_cons, List.reverse_append]
    exact hpassesFront.append (.cons (fun rest hrest =>
      entryMember_index hspacing (readIndex_finds hvalue level) rfl hrest) hpassesBack)

theorem readComponent_finds {entry : Component × Bool} {written : Value}
    (hwritten : IsObject (entry.1.entryFields entry.2) written) {level : Nat}
    (hbound : (written.chars spacing level).length ≤ bound) :
    Reader.Finds (readComponent bound) (written.chars spacing level)
      (writtenIndex entry, entry.1.withIndex 0) := by
  obtain ⟨members, rfl, hshows⟩ := hwritten
  obtain ⟨hcount, hsizes⟩ := length_object spacing level members
  obtain ⟨index, hindex, hpasses⟩ := exists_passes_entry hspacing hshows fun member hmember =>
    Nat.le_trans (hsizes member hmember) hbound
  have hgather := Component.gather_gives (hshows.without (by simp [Component.fields])) 0
  intro blank rest hblank hrest
  have hmembers := members_object hspacing hpasses (Nat.le_trans hcount hbound) rest
  unfold readComponent
  rw [chars_object, List.append_assoc, skipSpaces_append hblank, List.cons_append,
    skipSpaces_cons rfl]
  simp only [hmembers, ok_bind, List.reverse_reverse, hgather.ofMembers, hindex]
  rfl

theorem forall₂_readComponent {entries : List (Component × Bool)} {items : List Value}
    (hitems : List.Forall₂ (fun entry => IsObject (entry.1.entryFields entry.2)) entries items)
    {level : Nat} (hbound : ∀ item ∈ items, (item.chars spacing level).length ≤ bound) :
    List.Forall₂
      (fun item found => Reader.Finds (readComponent bound) (item.chars spacing level) found)
      items (entries.map fun entry => (writtenIndex entry, entry.1.withIndex 0)) := by
  induction hitems with
  | nil => exact .nil
  | cons hfirst _ ih =>
      obtain ⟨hsize, hbound⟩ := List.forall_mem_cons.mp hbound
      exact .cons (readComponent_finds hspacing hfirst hsize) (ih hbound)

omit hspacing in
theorem begins_entries {entries : List (Component × Bool)} {items : List Value}
    (hitems : List.Forall₂ (fun entry => IsObject (entry.1.entryFields entry.2)) entries items)
    (level : Nat) : ∀ item ∈ items, Begins (item.chars spacing level) := by
  induction hitems with
  | nil => exact nofun
  | cons hfirst _ ih =>
      obtain ⟨members, rfl, -⟩ := hfirst
      exact List.forall_mem_cons.mpr ⟨⟨'\x7b', _, chars_object level members, rfl⟩, ih⟩

theorem readComponents_finds {entries : List (Component × Bool)} {written : Value}
    (hwritten : IsArray (fun entry => IsObject (entry.1.entryFields entry.2)) entries written)
    {level : Nat} (hbound : (written.chars spacing level).length ≤ bound) :
    Reader.Finds (readComponents bound) (written.chars spacing level)
      (entries.map fun entry => (writtenIndex entry, entry.1.withIndex 0)) := by
  obtain ⟨items, rfl, hitems⟩ := hwritten
  obtain ⟨hcount, hsizes⟩ := length_array spacing level items
  have hfinds := forall₂_readComponent hspacing hitems fun item hitem =>
    Nat.le_trans (hsizes item hitem) hbound
  intro blank rest hblank hrest
  have hcomponents := items_array hspacing hfinds (begins_entries hitems (level + 1))
    (Nat.le_trans hcount hbound) rest
  unfold readComponents
  rw [chars_array, List.append_assoc, skipSpaces_append hblank, List.cons_append,
    skipSpaces_cons rfl]
  exact hcomponents

/-! ### Documents -/

theorem passes_documentMember {level : Nat} {members : List (String × Value)}
    (hnames : ∀ member ∈ members, member.1 ≠ "components")
    (htexts : ∀ member ∈ members, ∃ text, member.2 = .string text)
    (state : Option (List (Option UInt32 × Component))) :
    Passes (documentMember bound) spacing state (memberTexts spacing level members) state := by
  induction members with
  | nil => exact .nil
  | cons first others ih =>
      obtain ⟨hname, hnames⟩ := List.forall_mem_cons.mp hnames
      obtain ⟨⟨text, htext⟩, htexts⟩ := List.forall_mem_cons.mp htexts
      refine .cons (fun rest hrest => ?_) (ih hnames htexts)
      have hskip := skip_stringChars bound hspacing.afterColon text rest
      rw [htext]
      unfold documentMember
      simp only [if_neg hname, colon_cons, ok_bind]
      rw [show (Value.string text).chars spacing level = stringChars text from rfl, hskip]
      rfl

theorem readDocument_finds {entries : List (Component × Bool)} {document : Value}
    (hdocument : IsDocument entries document) {level : Nat}
    (hbound : (document.chars spacing level).length ≤ bound) :
    Reader.Finds (readDocument bound) (document.chars spacing level)
      (entries.map fun entry => (writtenIndex entry, entry.1.withIndex 0)) := by
  obtain ⟨members, rfl, hshows⟩ := hdocument
  obtain ⟨hcount, hsizes⟩ := length_object spacing level members
  obtain ⟨hdefault, -⟩ | ⟨value, hvalue, hone⟩ := hshows.declared _ List.mem_cons_self
  · exact hdefault.elim
  obtain ⟨front, back, rfl, hfront, hback⟩ := exists_split_of_filter hone
  have htexts : ∀ member ∈ front ++ ("components", value) :: back, member.1 ≠ "components" →
      ∃ text, member.2 = .string text := fun member hmember hname =>
    hshows.others member hmember (by simpa using hname)
  have hfinds : Reader.Finds (readComponents bound) (value.chars spacing (level + 1))
      (entries.map fun entry => (writtenIndex entry, entry.1.withIndex 0)) :=
    readComponents_finds hspacing hvalue
      (Nat.le_trans (hsizes _ (List.mem_append_right _ List.mem_cons_self)) hbound)
  have hcomponents : ∀ rest, Delimited rest →
      documentMember bound none "components"
        (':' :: (spacing.afterColon ++ value.chars spacing (level + 1) ++ rest))
        = .ok (some (entries.map fun entry => (writtenIndex entry, entry.1.withIndex 0)), rest) := by
    intro rest hrest
    have hread := hfinds _ _ hspacing.afterColon hrest
    unfold documentMember
    simp only [if_true, Option.isSome_none, Bool.false_eq_true, if_false, colon_cons, ok_bind, hread]
    rfl
  have hpasses : Passes (documentMember bound) spacing none
      (memberTexts spacing (level + 1) (front ++ ("components", value) :: back))
      (some (entries.map fun entry => (writtenIndex entry, entry.1.withIndex 0))) := by
    rw [memberTexts, List.map_append, List.map_cons]
    refine (passes_documentMember hspacing hfront ?_ none).append
      (.cons hcomponents (passes_documentMember hspacing hback ?_ _))
    · exact fun member hmember =>
        htexts member (List.mem_append_left _ hmember) (hfront member hmember)
    · exact fun member hmember =>
        htexts member (List.mem_append_right _ (List.mem_cons_of_mem _ hmember))
          (hback member hmember)
  intro blank rest hblank hrest
  have hmembers := members_object hspacing hpasses (Nat.le_trans hcount hbound) rest
  unfold readDocument
  rw [chars_object, List.append_assoc, skipSpaces_append hblank, List.cons_append,
    skipSpaces_cons rfl]
  simp only [hmembers, ok_bind]
  rfl

end Components

/-- An index that is left open is the place, and one that is written is the component's own. -/
theorem withIndex_writtenIndex (entry : Component × Bool) (place : UInt32) :
    (entry.1.withIndex 0).withIndex ((writtenIndex entry).getD place)
      = if entry.2 then entry.1.withIndex place else entry.1 := by
  obtain ⟨component, isOpen⟩ := entry
  cases isOpen <;> rfl

theorem ofEntries_eq (entries : List (Component × Bool)) :
    ofEntries (entries.map fun entry => (writtenIndex entry, entry.1.withIndex 0))
      = ofList (placed entries) := by
  refine congrArg ofList (List.ext_getElem? fun place => ?_)
  rw [placed, List.getElem?_mapIdx, List.getElem?_mapIdx, List.getElem?_map, Option.map_map]
  refine congrArg (entries[place]?.map ·) (funext fun entry => ?_)
  exact withIndex_writtenIndex entry (.ofNat place)

theorem getElem?_placed (entries : List (Component × Bool)) (place : Nat) :
    (placed entries)[place]? = entries[place]?.map fun entry =>
      if entry.2 then entry.1.withIndex (.ofNat place) else entry.1 :=
  List.getElem?_mapIdx

/-- Of the components with the same index, a catalog keeps the order. -/
theorem filter_components_ofList (components : List Component) (index : UInt32) :
    (ofList components).components.filter (·.declarationIndex = index)
      = components.filter (·.declarationIndex = index) := by
  have hperm : (ofList components).components.Perm components := List.mergeSort_perm _ _
  have hsame : (components.filter (·.declarationIndex = index)).Pairwise
      (fun first second => first.declaredBefore second = true) := by
    refine List.pairwise_of_forall_mem_list fun first hfirst second hsecond => ?_
    have hfirstIndex : first.declarationIndex = index := by simpa using (List.mem_filter.mp hfirst).2
    have hsecondIndex : second.declarationIndex = index := by
      simpa using (List.mem_filter.mp hsecond).2
    simp [Component.declaredBefore, hfirstIndex, hsecondIndex]
  have hsublist : (components.filter (·.declarationIndex = index)).Sublist
      (ofList components).components := by
    refine List.sublist_mergeSort ?_ ?_ hsame List.filter_sublist
    · intro a b c
      simpa [Component.declaredBefore] using UInt32.le_trans
    · intro a b
      simpa [Component.declaredBefore] using UInt32.le_total _ _
  -- Sorting loses nothing, so a sublist with all of the same index is all that there is of it.
  have hfiltered := hsublist.filter (·.declarationIndex = index)
  rw [List.filter_filter] at hfiltered
  simp only [Bool.and_self] at hfiltered
  exact (hfiltered.eq_of_length (hperm.filter _).length_eq.symm).symm

/-- A document with the components of a list is read as the catalog of that list. An index that is left
open becomes the place in the list. -/
theorem ofText_write (entries : List (Component × Bool)) (hcount : entries.length < wordRange32)
    (document : Value) (hdocument : IsDocument entries document) (spacing : Spacing)
    (hspacing : spacing.Blank) :
    ofText (document.write spacing) = .ok (ofList (placed entries))
      ∧ (∀ (place : Nat) (component : Component), entries[place]? = some (component, true) →
        ∃ index : UInt32, index.toNat = place
          ∧ (placed entries)[place]? = some (component.withIndex index))
      ∧ (∀ (place : Nat) (component : Component), entries[place]? = some (component, false) →
        (placed entries)[place]? = some component)
      ∧ (ofList (placed entries)).components.Pairwise (·.declarationIndex ≤ ·.declarationIndex)
      ∧ ∀ index : UInt32, (ofList (placed entries)).components.filter (·.declarationIndex = index)
        = (placed entries).filter (·.declarationIndex = index) := by
  refine ⟨?_, fun place component hentry => ?_, fun place component hentry => ?_,
    (ofList (placed entries)).ascending, filter_components_ofList (placed entries)⟩
  · have hfinds := readDocument_finds hspacing hdocument
      (Nat.le_refl (document.chars spacing 0).length) [] [] Blank.nil nofun
    rw [List.nil_append, List.append_nil] at hfinds
    unfold ofText Value.write
    rw [String.toList_ofList]
    simp only [hfinds, ok_bind, ofEntries_eq]
    rfl
  · obtain ⟨hplace, -⟩ := List.getElem?_eq_some_iff.mp hentry
    refine ⟨.ofNat place, UInt32.toNat_ofNat_of_lt' (Nat.lt_trans hplace hcount), ?_⟩
    rw [getElem?_placed, hentry]
    rfl
  · rw [getElem?_placed, hentry]
    rfl

def mailer : Component where
  qualifiedName := "app.SmtpMailer"
  displayName := "smtpMailer"
  interfaces := .ofList ["app.Mailer"]
  sites := [.constructor [.direct "app.Config"]]
  conditions := [.profile ["prod"] false]
  declarationIndex := 5

def config : Component where
  qualifiedName := "app.Config"
  displayName := "config"
  lazy := true

/-- A form of the component in which the members are out of order and most of them are left out. -/
def briefConfig : Value :=
  .object
    [("lazy", .bool true), ("colour", .string "red"), ("display_name", .string "config"),
      ("declaration_index", .null), ("qualified_name", .string "app.Config")]

def mailDocument : Value :=
  .object
    [("note", .string "two components"), ("components", .array [mailer.toJson, briefConfig])]

theorem mailDocument_read :
    [(mailer, false), (config, true)].length < wordRange32
      ∧ IsDocument [(mailer, false), (config, true)] mailDocument
      ∧ indented.Blank
      ∧ ofText (mailDocument.write indented) = .ok (ofList [mailer, config.withIndex 1]) := by
  have hbrief : IsObject (config.entryFields true) briefConfig := by
    have hnone : (∅ : NameSet).toList = [] := rfl
    refine ⟨_, rfl, ?_, ?_⟩
    · simp [Component.entryFields, Component.fields, config, hnone]
    · simp [Component.entryFields, Component.fields, config]
  have hcomponents : IsArray (fun entry => IsObject (entry.1.entryFields entry.2))
      [(mailer, false), (config, true)] (.array [mailer.toJson, briefConfig]) :=
    ⟨_, rfl, .cons mailer.isObject_toJson (.cons hbrief .nil)⟩
  have hdocument : IsDocument [(mailer, false), (config, true)] mailDocument := by
    refine ⟨_, rfl, List.forall_mem_singleton.mpr (.inr ⟨_, hcomponents, ?_⟩), ?_⟩
    · simp
    · simp
  exact ⟨by decide, hdocument, blank_indented,
    (ofText_write _ (by decide) _ hdocument _ blank_indented).1⟩

end Catalog

end Assembly
