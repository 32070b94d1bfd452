import Assembly.Proofs.Settings.Calls
import Assembly.Proofs.Settings.Table

/-!
# Layers as they are written

Whatever is read from a document or from the variables of the process is a table, and the names in it and
in the tables below it are ascending. So a name stands in a table once, and what is looked up under a
name is all that there is.
-/

namespace Assembly

theorem Setting.ascending_nest {names : List String} {setting : Setting}
    (hsetting : setting.Ascending) : (Setting.nest names setting).Ascending := by
  induction names with
  | nil => exact hsetting
  | cons name rest ih =>
      refine ascending_table_iff.mpr ⟨List.pairwise_singleton _ _, fun entry hentry => ?_⟩
      rw [List.mem_singleton.mp hentry]
      exact ih

namespace Toml

/-! ### Drafts -/

/-- The names in each table of the draft are ascending. -/
inductive Draft.Ascending : Draft → Prop where
  | value {setting : Setting} (hsetting : setting.Ascending) : Ascending (.value setting)
  | table {origin : Origin} {entries : List (String × Draft)}
    (hnames : entries.Pairwise (·.1 < ·.1)) (hdrafts : ∀ entry ∈ entries, Ascending entry.2) :
    Ascending (.table origin entries)
  | tables {elements : List (List (String × Draft))}
    (hnames : ∀ entries ∈ elements, entries.Pairwise (·.1 < ·.1))
    (hdrafts : ∀ entries ∈ elements, ∀ entry ∈ entries, Ascending entry.2) :
    Ascending (.tables elements)

structure AscendingEntries (entries : Entries) : Prop where
  names : entries.Pairwise (·.1 < ·.1)
  drafts : ∀ entry ∈ entries, entry.2.Ascending

theorem AscendingEntries.nil : AscendingEntries [] :=
  ⟨.nil, nofun⟩

theorem settings_eq_map (entries : List (String × Draft)) :
    settings entries = entries.map fun entry => (entry.1, entry.2.setting) := by
  induction entries with
  | nil => rfl
  | cons first rest ih => rw [settings, ih, List.map_cons]

theorem ascending_settings {entries : List (String × Draft)}
    (hnames : entries.Pairwise (·.1 < ·.1))
    (hsettings : ∀ entry ∈ entries, entry.2.setting.Ascending) :
    (Setting.table (settings entries)).Ascending := by
  rw [settings_eq_map, Setting.ascending_table_iff]
  refine ⟨List.pairwise_map.mpr hnames, fun entry hentry => ?_⟩
  obtain ⟨written, hwritten, rfl⟩ := List.mem_map.mp hentry
  exact hsettings written hwritten

theorem Draft.Ascending.setting {draft : Draft} (hdraft : draft.Ascending) :
    draft.setting.Ascending := by
  induction hdraft with
  | value hsetting => exact hsetting
  | table hnames hdrafts ih => exact ascending_settings hnames ih
  | tables hnames hdrafts ih => exact Setting.ascending_of_not_isTable nofun

namespace AscendingEntries

variable {entries : Entries} (hentries : AscendingEntries entries)
include hentries

theorem settings : (Setting.table (Toml.settings entries)).Ascending :=
  ascending_settings hentries.names fun entry hentry => (hentries.drafts entry hentry).setting

theorem insertEntry {draft : Draft} (name : String) (hdraft : draft.Ascending) :
    AscendingEntries (Assembly.insertEntry name draft entries) where
  names := pairwise_insertEntry hentries.names
  drafts entry hentry := by
    rcases mem_insertEntry hentry with rfl | hold
    · exact hdraft
    · exact hentries.drafts entry hold

theorem lookup {draft : Draft} {name : String} (hlookup : entries.lookup name = some draft) :
    draft.Ascending :=
  hentries.drafts _ (mem_of_lookup hlookup)

theorem ofTable {origin : Origin} : (Draft.table origin entries).Ascending :=
  .table hentries.names hentries.drafts

omit hentries in
theorem of_table {origin : Origin} (hdraft : (Draft.table origin entries).Ascending) :
    AscendingEntries entries := by
  cases hdraft with
  | table hnames hdrafts => exact ⟨hnames, hdrafts⟩

theorem addEntry {draft : Draft} {name : String} {added : Entries} (hdraft : draft.Ascending)
    (hadded : Toml.addEntry name draft entries = some added) : AscendingEntries added := by
  unfold Toml.addEntry at hadded
  split at hadded
  · cases hadded
  · cases hadded
    exact hentries.insertEntry name hdraft

end AscendingEntries

theorem ascending_tables_iff {elements : List (List (String × Draft))} :
    (Draft.tables elements).Ascending ↔ ∀ entries ∈ elements, AscendingEntries entries := by
  constructor
  · intro hdraft entries hentries
    cases hdraft with
    | tables hnames hdrafts => exact ⟨hnames entries hentries, hdrafts entries hentries⟩
  · intro hall
    exact .tables (fun entries hentries => (hall entries hentries).names)
      fun entries hentries => (hall entries hentries).drafts

/-- A change that keeps the names ascending does so at the end of any path. -/
theorem ascending_alter {α : Type} {isDotted : Bool}
    {change : Origin → Entries → Option (Entries × α)} (good : α → Prop)
    (hchange : ∀ origin entries, AscendingEntries entries → ∀ changed result,
      change origin entries = some (changed, result) → AscendingEntries changed ∧ good result)
    {path : List String} {origin : Origin} {entries changed : Entries} {result : α}
    (hentries : AscendingEntries entries)
    (halter : alter isDotted change path origin entries = some (changed, result)) :
    AscendingEntries changed ∧ good result := by
  induction path generalizing origin entries changed with
  | nil => exact hchange origin entries hentries changed result halter
  | cons name path ih =>
      rw [alter] at halter
      split at halter
      · obtain ⟨⟨inner, _⟩, hinner, heq⟩ := Option.bind_eq_some_iff.mp halter
        cases heq
        obtain ⟨hbelow, hgood⟩ := ih .nil hinner
        exact ⟨hentries.insertEntry name hbelow.ofTable, hgood⟩
      · next tableOrigin below hlookup =>
        split at halter
        · cases halter
        · obtain ⟨⟨inner, _⟩, hinner, heq⟩ := Option.bind_eq_some_iff.mp halter
          cases heq
          obtain ⟨hbelow, hgood⟩ := ih (.of_table (hentries.lookup hlookup)) hinner
          exact ⟨hentries.insertEntry name hbelow.ofTable, hgood⟩
      -- A path leads through the last of several tables, and those before it stay as they are.
      · next elements hlookup =>
        have helements := ascending_tables_iff.mp (hentries.lookup hlookup)
        split at halter
        · cases halter
        · next last hlast =>
          obtain ⟨⟨inner, _⟩, hinner, heq⟩ := Option.bind_eq_some_iff.mp halter
          cases heq
          obtain ⟨hbelow, hgood⟩ := ih (helements last (List.mem_of_getLast? hlast)) hinner
          refine ⟨hentries.insertEntry name (ascending_tables_iff.mpr ?_), hgood⟩
          intro element helement
          rcases List.mem_append.mp helement with hold | hnew
          · exact helements element (List.dropLast_subset _ hold)
          · rw [List.mem_singleton.mp hnew]
            exact hbelow
      · cases halter

theorem ascending_assign {path : List String} {name : String} {setting : Setting}
    {entries changed : Entries} (hentries : AscendingEntries entries)
    (hsetting : setting.Ascending) (hassign : assign path name setting entries = some changed) :
    AscendingEntries changed := by
  obtain ⟨⟨_, _⟩, halter, rfl⟩ := Option.map_eq_some_iff.mp hassign
  refine (ascending_alter (fun _ => True) ?_ hentries halter).1
  intro origin inner hinner changed result hchange
  split at hchange
  · obtain ⟨added, hadded, heq⟩ := Option.map_eq_some_iff.mp hchange
    cases heq
    exact ⟨hinner.addEntry (.value hsetting) hadded, trivial⟩
  · cases hchange

theorem ascending_assignNames {names : List String} {setting : Setting}
    {entries changed : Entries} (hentries : AscendingEntries entries)
    (hsetting : setting.Ascending)
    (hassign : assignNames names setting entries = some changed) : AscendingEntries changed := by
  unfold assignNames at hassign
  split at hassign
  · exact ascending_assign hentries hsetting hassign
  · cases hassign

structure Progress.Ascending (progress : Progress) : Prop where
  root : AscendingEntries progress.root
  current : AscendingEntries progress.current

namespace Progress.Ascending

variable {progress next : Progress} (hprogress : progress.Ascending)
include hprogress

theorem close {entries : Entries} (hclose : progress.close = some entries) :
    AscendingEntries entries := by
  unfold Progress.close at hclose
  split at hclose
  · cases hclose
    exact hprogress.current
  · next header hheader =>
    obtain ⟨⟨_, _⟩, halter, rfl⟩ := Option.map_eq_some_iff.mp hclose
    refine (ascending_alter (fun _ => True) ?_ hprogress.root halter).1
    intro origin inner hinner changed result hchange
    split at hchange
    · split at hchange
      · next elements hlookup =>
        have helements := ascending_tables_iff.mp (hinner.lookup hlookup)
        cases hchange
        refine ⟨hinner.insertEntry _ (ascending_tables_iff.mpr ?_), trivial⟩
        intro element helement
        rcases List.mem_append.mp helement with hold | hnew
        · exact helements element hold
        · rw [List.mem_singleton.mp hnew]
          exact hprogress.current
      · cases hchange
    · obtain ⟨added, hadded, heq⟩ := Option.map_eq_some_iff.mp hchange
      cases heq
      exact ⟨hinner.addEntry hprogress.current.ofTable hadded, trivial⟩

omit hprogress in
theorem ascending_openElement {name : String} {entries root current : Entries}
    (hentries : AscendingEntries entries)
    (hopen : openElement name entries = some (root, current)) :
    AscendingEntries root ∧ AscendingEntries current := by
  unfold openElement at hopen
  split at hopen
  · cases hopen
    exact ⟨hentries.insertEntry name (ascending_tables_iff.mpr nofun), .nil⟩
  · cases hopen
    exact ⟨hentries, .nil⟩
  · cases hopen

omit hprogress in
theorem ascending_openTable {name : String} {entries root current : Entries}
    (hentries : AscendingEntries entries)
    (hopen : openTable name entries = some (root, current)) :
    AscendingEntries root ∧ AscendingEntries current := by
  unfold openTable at hopen
  split at hopen
  · cases hopen
    exact ⟨hentries, .nil⟩
  · next inner hlookup =>
    cases hopen
    refine ⟨⟨hentries.names.filter _, fun entry hentry => ?_⟩, .of_table (hentries.lookup hlookup)⟩
    exact hentries.drafts entry (List.mem_filter.mp hentry).1
  · cases hopen

theorem openHeader {header : Header} (hopen : progress.openHeader header = some next) :
    next.Ascending := by
  obtain ⟨root, hclose, hopen⟩ := Option.bind_eq_some_iff.mp hopen
  obtain ⟨⟨changed, current⟩, halter, heq⟩ := Option.bind_eq_some_iff.mp hopen
  cases heq
  obtain ⟨hroot, hcurrent⟩ := ascending_alter AscendingEntries
    (fun _ entries hentries changed current hopen => by
      cases helement : header.isElement with
      | true =>
          rw [helement] at hopen
          exact ascending_openElement hentries hopen
      | false =>
          rw [helement] at hopen
          exact ascending_openTable hentries hopen)
    (hprogress.close hclose) halter
  exact ⟨hroot, hcurrent⟩

theorem assign {path : List String} {name : String} {setting : Setting}
    (hsetting : setting.Ascending) (hassign : progress.assign path name setting = some next) :
    next.Ascending := by
  obtain ⟨current, hcurrent, heq⟩ := Option.bind_eq_some_iff.mp hassign
  cases heq
  exact ⟨hprogress.root, ascending_assign hprogress.current hsetting hcurrent⟩

end Progress.Ascending

/-! ### Values -/

/-- What the scan reads is good, whatever it reads. -/
def Scan.Yields {α : Type} (scan : Scan α) (good : α → Prop) : Prop :=
  ∀ text found rest, scan text = some (found, rest) → good found

theorem ascending_bounded {value : Int} {setting : Setting}
    (hbounded : bounded value = some setting) : setting.Ascending := by
  unfold bounded at hbounded
  split at hbounded
  · cases hbounded
    exact Setting.ascending_of_not_isTable nofun
  · cases hbounded

theorem yields_inBase {base : Nat} {isDigit : Char → Bool} :
    Scan.Yields (inBase base isDigit) Setting.Ascending := by
  intro text found rest hread
  obtain ⟨⟨_, _⟩, -, hread⟩ := Option.bind_eq_some_iff.mp hread
  obtain ⟨setting, hbounded, heq⟩ := Option.bind_eq_some_iff.mp hread
  cases heq
  exact ascending_bounded hbounded

theorem yields_decimal {negative : Bool} :
    Scan.Yields (decimal negative) Setting.Ascending := by
  intro text found rest hread
  obtain ⟨⟨whole, _⟩, -, hread⟩ := Option.bind_eq_some_iff.mp hread
  obtain ⟨⟨fraction, _⟩, -, hread⟩ := Option.bind_eq_some_iff.mp hread
  obtain ⟨⟨exponent, _⟩, -, hread⟩ := Option.bind_eq_some_iff.mp hread
  dsimp only at hread
  split at hread
  · obtain ⟨setting, hbounded, heq⟩ := Option.bind_eq_some_iff.mp hread
    cases heq
    exact ascending_bounded hbounded
  · split at hread
    · cases hread
    · cases hread
      exact Setting.ascending_of_not_isTable nofun

theorem yields_number : Scan.Yields number Setting.Ascending := by
  intro text found rest hread
  unfold number at hread
  split at hread
  · exact yields_inBase _ _ _ hread
  · exact yields_inBase _ _ _ hread
  · exact yields_inBase _ _ _ hread
  · dsimp only at hread
    unfold signed at hread
    split at hread
    · cases hread
      exact Setting.ascending_of_not_isTable nofun
    · cases hread
      exact Setting.ascending_of_not_isTable nofun
    · exact yields_decimal _ _ _ hread

theorem ascending_momentSetting (text : List Char) : (momentSetting text).Ascending := by
  refine Setting.ascending_table_iff.mpr ⟨List.pairwise_singleton _ _, fun entry hentry => ?_⟩
  rw [List.mem_singleton.mp hentry]
  exact Setting.ascending_of_not_isTable nofun

theorem yields_map {α : Type} {scan : Scan α} {f : α → Setting} (hf : ∀ found, (f found).Ascending) :
    Scan.Yields (scan.map f) Setting.Ascending := by
  intro text found rest hread
  obtain ⟨_, -, heq⟩ := Option.map_eq_some_iff.mp hread
  cases heq
  exact hf _

theorem yields_simple {bound : Nat} : Scan.Yields (simple bound) Setting.Ascending := by
  intro text found rest hread
  unfold simple at hread
  split at hread
  · cases hread
    exact Setting.ascending_of_not_isTable nofun
  · cases hread
    exact Setting.ascending_of_not_isTable nofun
  · refine yields_map (fun _ => ?_) _ _ _ hread
    exact Setting.ascending_of_not_isTable nofun
  · refine yields_map (fun _ => ?_) _ _ _ hread
    exact Setting.ascending_of_not_isTable nofun
  · split at hread
    · obtain ⟨_, -, heq⟩ := Option.map_eq_some_iff.mp hread
      cases heq
      exact ascending_momentSetting _
    · exact yields_number _ _ _ hread

section Tables

variable {value : Scan Setting} (hvalue : value.Yields Setting.Ascending)
include hvalue

theorem yields_keyed {bound : Nat} :
    Scan.Yields (keyed value bound) fun found => found.2.Ascending := by
  intro text found rest hread
  obtain ⟨⟨names, _⟩, -, hread⟩ := Option.bind_eq_some_iff.mp hread
  dsimp only at hread
  split at hread
  · obtain ⟨⟨setting, _⟩, hsetting, heq⟩ := Option.bind_eq_some_iff.mp hread
    cases heq
    exact hvalue _ _ _ hsetting
  · cases hread

theorem yields_moreKeyed {bound more : Nat} {entries : Entries}
    (hentries : AscendingEntries entries) :
    Scan.Yields (moreKeyed value bound more entries) AscendingEntries := by
  induction more generalizing entries with
  | zero => exact nofun
  | succ more ih =>
      intro text found rest hread
      rw [moreKeyed] at hread
      split at hread
      · cases hread
        exact hentries
      · obtain ⟨⟨⟨names, setting⟩, _⟩, hkeyed, hread⟩ := Option.bind_eq_some_iff.mp hread
        obtain ⟨changed, hassign, hread⟩ := Option.bind_eq_some_iff.mp hread
        have hsetting := yields_keyed hvalue _ _ _ hkeyed
        exact ih (ascending_assignNames hentries hsetting hassign) _ _ _ hread
      · cases hread

theorem yields_inlineTable {bound : Nat} :
    Scan.Yields (inlineTable value bound) AscendingEntries := by
  intro text found rest hread
  unfold inlineTable at hread
  split at hread
  · cases hread
    exact .nil
  · obtain ⟨⟨⟨names, setting⟩, _⟩, hkeyed, hread⟩ := Option.bind_eq_some_iff.mp hread
    obtain ⟨changed, hassign, hread⟩ := Option.bind_eq_some_iff.mp hread
    have hsetting := yields_keyed hvalue _ _ _ hkeyed
    exact yields_moreKeyed hvalue (ascending_assignNames .nil hsetting hassign) _ _ _ hread

end Tables

theorem yields_value {bound depth : Nat} : Scan.Yields (value bound depth) Setting.Ascending := by
  induction depth with
  | zero =>
      intro text found rest hread
      unfold value at hread
      split at hread
      · cases hread
      · cases hread
      · exact yields_simple _ _ _ hread
  | succ depth ih =>
      intro text found rest hread
      unfold value at hread
      split at hread
      · refine yields_map (fun _ => ?_) _ _ _ hread
        exact Setting.ascending_of_not_isTable nofun
      · obtain ⟨⟨entries, _⟩, hentries, heq⟩ := Option.map_eq_some_iff.mp hread
        cases heq
        exact (yields_inlineTable ih _ _ _ hentries).settings
      · exact yields_simple _ _ _ hread

/-! ### Documents -/

theorem ascending_line {bound : Nat} {progress next : Progress} {text rest : List Char}
    (hprogress : progress.Ascending) (hline : line bound progress text = some (next, rest)) :
    next.Ascending := by
  unfold line at hline
  split at hline
  · obtain ⟨⟨header, _⟩, -, hline⟩ := Option.bind_eq_some_iff.mp hline
    obtain ⟨opened, hopen, hline⟩ := Option.bind_eq_some_iff.mp hline
    obtain ⟨_, -, heq⟩ := Option.bind_eq_some_iff.mp hline
    cases heq
    exact hprogress.openHeader hopen
  · obtain ⟨_, -, heq⟩ := Option.bind_eq_some_iff.mp hline
    cases heq
    exact hprogress
  · obtain ⟨_, -, heq⟩ := Option.bind_eq_some_iff.mp hline
    cases heq
    exact hprogress
  · obtain ⟨_, -, heq⟩ := Option.bind_eq_some_iff.mp hline
    cases heq
    exact hprogress
  · obtain ⟨⟨⟨names, setting⟩, _⟩, hkeyed, hline⟩ := Option.bind_eq_some_iff.mp hline
    obtain ⟨_, -, hline⟩ := Option.bind_eq_some_iff.mp hline
    obtain ⟨name, -, hline⟩ := Option.bind_eq_some_iff.mp hline
    obtain ⟨assigned, hassign, heq⟩ := Option.bind_eq_some_iff.mp hline
    cases heq
    exact hprogress.assign (yields_keyed yields_value _ _ _ hkeyed) hassign

theorem ascending_lines {bound more : Nat} {progress next : Progress} {text : List Char}
    (hprogress : progress.Ascending) (hlines : lines bound more progress text = some next) :
    next.Ascending := by
  induction more generalizing progress text with
  | zero => cases hlines
  | succ more ih =>
      rw [lines] at hlines
      split at hlines
      · cases hlines
        exact hprogress
      · obtain ⟨⟨changed, _⟩, hline, hlines⟩ := Option.bind_eq_some_iff.mp hlines
        exact ih (ascending_line hprogress hline) hlines

/-! ### Wrapped values -/

theorem wrapped?_ascending {entries : List (String × Setting)} {setting : Setting}
    (hentries : (Setting.table entries).Ascending) (hwrapped : wrapped? entries = some setting) :
    setting.Ascending := by
  unfold wrapped? at hwrapped
  split at hwrapped
  · cases hwrapped
  · cases hwrapped
    cases hlookup : entries.lookup wrappedName with
    | none => exact hentries
    | some inner => exact (Setting.ascending_table_iff.mp hentries).2 _ (mem_of_lookup hlookup)

theorem unwrappedEntries?_names {entries unwrapped : List (String × Setting)}
    (hunwrapped : unwrappedEntries? entries = some unwrapped) :
    unwrapped.map Prod.fst = entries.map Prod.fst := by
  induction entries generalizing unwrapped with
  | nil =>
      cases hunwrapped
      rfl
  | cons first rest ih =>
      obtain ⟨setting, -, hrest⟩ := Option.bind_eq_some_iff.mp hunwrapped
      obtain ⟨others, hothers, heq⟩ := Option.bind_eq_some_iff.mp hrest
      cases heq
      rw [List.map_cons, List.map_cons, ih hothers]

mutual

theorem ascending_unwrapped? {setting unwrapped : Setting} (hsetting : setting.Ascending)
    (hunwrapped : unwrapped? setting = some unwrapped) : unwrapped.Ascending := by
  match setting with
  | .table entries =>
      obtain ⟨others, hothers, hwrapped⟩ := Option.bind_eq_some_iff.mp hunwrapped
      exact wrapped?_ascending (ascending_unwrappedEntries? hsetting hothers) hwrapped
  | .list items =>
      obtain ⟨others, -, rfl⟩ := Option.map_eq_some_iff.mp hunwrapped
      exact Setting.ascending_of_not_isTable nofun
  | .text _ | .letter _ | .flag _ | .integer _ | .real _ =>
      cases hunwrapped
      exact Setting.ascending_of_not_isTable nofun

theorem ascending_unwrappedEntries? {entries unwrapped : List (String × Setting)}
    (hentries : (Setting.table entries).Ascending)
    (hunwrapped : unwrappedEntries? entries = some unwrapped) :
    (Setting.table unwrapped).Ascending := by
  match entries with
  | [] =>
      cases hunwrapped
      exact hentries
  | (name, setting) :: rest =>
      obtain ⟨hnames, hbelow⟩ := Setting.ascending_table_iff.mp hentries
      have hsame := unwrappedEntries?_names hunwrapped
      obtain ⟨first, hfirst, hrest⟩ := Option.bind_eq_some_iff.mp hunwrapped
      obtain ⟨others, hothers, heq⟩ := Option.bind_eq_some_iff.mp hrest
      cases heq
      have hrest := ascending_unwrappedEntries?
        (Setting.ascending_table_iff.mpr ⟨hnames.of_cons, fun entry hentry =>
          hbelow entry (List.mem_cons_of_mem _ hentry)⟩) hothers
      refine Setting.ascending_table_iff.mpr ⟨?_, fun entry hentry => ?_⟩
      · have hpairwise : (((name, setting) :: rest).map Prod.fst).Pairwise (· < ·) :=
          List.pairwise_map.mpr hnames
        rw [← hsame] at hpairwise
        exact List.pairwise_map.mp hpairwise
      · rcases List.mem_cons.mp hentry with rfl | hmem
        · exact ascending_unwrapped? (hbelow _ List.mem_cons_self) hfirst
        · exact (Setting.ascending_table_iff.mp hrest).2 entry hmem

end

/-- A document is a table of ascending tables. -/
theorem ascending_read {document : String} {layer : Setting} (hread : read document = some layer) :
    layer.Ascending ∧ layer.IsTable := by
  obtain ⟨progress, hlines, hread⟩ := Option.bind_eq_some_iff.mp hread
  obtain ⟨closed, hclose, hread⟩ := Option.bind_eq_some_iff.mp hread
  obtain ⟨entries, hentries, heq⟩ := Option.bind_eq_some_iff.mp hread
  cases heq
  have hprogress := ascending_lines ⟨.nil, .nil⟩ hlines
  exact ⟨ascending_unwrappedEntries? (hprogress.close hclose).settings hentries, entries, rfl⟩

end Toml

namespace Variable

/-! ### Variables -/

theorem ascending_tableOf {entries : List (String × Setting)}
    (hentries : ∀ entry ∈ entries, entry.2.Ascending) : (tableOf entries).Ascending := by
  have hinsertAll : ∀ (pairs : List (String × Setting)) (map : NameMap Setting),
      (∀ entry ∈ map.entries, entry.2.Ascending) → (∀ entry ∈ pairs, entry.2.Ascending) →
      ∀ entry ∈ (map.insertAll pairs).entries, entry.2.Ascending := by
    intro pairs
    induction pairs with
    | nil => exact fun map hmap _ => hmap
    | cons first rest ih =>
        intro map hmap hpairs
        obtain ⟨hfirst, hrest⟩ := List.forall_mem_cons.mp hpairs
        refine ih (map.insert first.1 first.2) (fun entry hentry => ?_) hrest
        rcases mem_insertEntry hentry with rfl | hold
        · exact hfirst
        · exact hmap entry hold
  exact Setting.ascending_table_iff.mpr
    ⟨(NameMap.ofList entries).ascending, hinsertAll entries .empty nofun hentries⟩

theorem ascending_collect {item : Scan (String × Setting)} {closing : Char} {bound : Nat}
    {text rest : List Char} {found : List (String × Setting)}
    (hitem : ∀ text first rest, item text = some (first, rest) → first.2.Ascending)
    (hread : collect item closing bound text = some (found, rest)) :
    ∀ entry ∈ found, entry.2.Ascending := by
  induction bound generalizing text found with
  | zero => cases hread
  | succ bound ih =>
      cases text with
      | nil => cases hread
      | cons c text =>
          rw [collect] at hread
          split at hread
          · cases hread
            exact nofun
          · split at hread
            · next first rest hfirst =>
              obtain ⟨⟨others, _⟩, hothers, heq⟩ := Option.map_eq_some_iff.mp hread
              cases heq
              exact List.forall_mem_cons.mpr ⟨hitem _ _ _ hfirst, ih hothers⟩
            · next first other rest hfirst =>
              split at hread
              · cases hread
                exact List.forall_mem_singleton.mpr (hitem _ _ _ hfirst)
              · cases hread
            · cases hread
            · cases hread

theorem ascending_bare (text : List Char) : (bare text).Ascending := by
  unfold bare
  split
  all_goals exact Setting.ascending_of_not_isTable nofun

theorem ascending_value {bound depth : Nat} {text rest : List Char} {setting : Setting}
    (hread : value bound depth text = some (setting, rest)) : setting.Ascending := by
  induction depth generalizing text setting rest with
  | zero => cases hread
  | succ depth ih =>
      unfold value at hread
      split at hread
      · cases hread
        exact Setting.ascending_of_not_isTable nofun
      · cases hread
        exact Setting.ascending_of_not_isTable nofun
      · obtain ⟨⟨entries, _⟩, hentries, heq⟩ := Option.map_eq_some_iff.mp hread
        cases heq
        refine ascending_tableOf (ascending_collect ?_ hentries)
        intro text first rest hentry
        obtain ⟨⟨name, _⟩, -, hentry⟩ := Option.bind_eq_some_iff.mp hentry
        dsimp only at hentry
        split at hentry
        · obtain ⟨⟨inner, _⟩, hinner, heq⟩ := Option.bind_eq_some_iff.mp hentry
          cases heq
          exact ih hinner
        · cases hentry
      · obtain ⟨_, -, heq⟩ := Option.map_eq_some_iff.mp hread
        cases heq
        exact Setting.ascending_of_not_isTable nofun
      · obtain ⟨_, -, heq⟩ := Option.map_eq_some_iff.mp hread
        cases heq
        exact Setting.ascending_of_not_isTable nofun
      · cases hread
        exact Setting.ascending_of_not_isTable nofun
      · cases hread
      · cases hread
        exact ascending_bare _

theorem ascending_read (text : String) : (read text).Ascending := by
  unfold read
  dsimp only
  split
  · next setting hread => exact ascending_value hread
  · exact Setting.ascending_of_not_isTable nofun

theorem isTable_nest {name : String} {names : List String} (hplace : place? name = some names)
    (setting : Setting) : (Setting.nest names setting).IsTable := by
  unfold place? at hplace
  split at hplace <;> cases hplace
  all_goals exact ⟨_, rfl⟩

theorem ascending_layer (vars : NameMap String) :
    (layer vars).Ascending ∧ (layer vars).IsTable := by
  refine List.foldlRecOn (motive := fun layer : Setting => layer.Ascending ∧ layer.IsTable)
    vars.entries _ ⟨Setting.ascending_table_iff.mpr ⟨.nil, nofun⟩, [], rfl⟩ ?_
  rintro below ⟨hbelow, htable⟩ entry -
  unfold lay
  split
  · next names hplace =>
    exact ⟨Setting.ascending_merge hbelow (Setting.ascending_nest (ascending_read entry.2)),
      Setting.isTable_merge below (isTable_nest hplace _)⟩
  · exact ⟨hbelow, htable⟩

end Variable

/-- Wherever a layer comes from, it is a table of ascending tables. -/
theorem LayerSource.ascending_layer {source : LayerSource} {layer : Setting}
    (hlayer : source.layer = .ok layer) : layer.Ascending ∧ layer.IsTable := by
  have hread : ∀ {fault : LayerFault} {text : String},
      (Toml.read text).elim (.error fault) .ok = Except.ok layer →
      layer.Ascending ∧ layer.IsTable := by
    intro fault text hok
    cases hread : Toml.read text with
    | none =>
        rw [hread] at hok
        cases hok
    | some found =>
        rw [hread] at hok
        cases hok
        exact Toml.ascending_read hread
  cases source with
  | document origin text => exact hread hlayer
  | file path found =>
      cases found with
      | file text => exact hread hlayer
      | folder =>
          cases hlayer
          exact ⟨Setting.ascending_table_iff.mpr ⟨.nil, nofun⟩, [], rfl⟩
      | missing => cases hlayer
  | process vars =>
      cases hlayer
      exact Variable.ascending_layer vars

end Assembly
