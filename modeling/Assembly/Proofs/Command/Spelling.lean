import Mathlib.Data.List.TakeWhile
import Assembly.Command.Arguments

/-!
# Spellings of command lines

A command line spells options, one after the other, each of them with its value in the same argument or
in the next one. It is accepted exactly if it spells options of which those that may be given once are not
given twice, and a catalog is among them.
-/

namespace Assembly

/-- An option with its value. -/
inductive Given where
  | catalog (path : String)
  | config (path : String)
  | profile (name : String)
  | property (name value : String)
  | flag (name : String)
  | strict
  | format (format : Format)
deriving DecidableEq

namespace Given

def catalog? : Given → Option String
  | .catalog path => some path
  | _ => none

def config? : Given → Option String
  | .config path => some path
  | _ => none

def profile? : Given → Option String
  | .profile name => some name
  | _ => none

def property? : Given → Option (String × String)
  | .property name value => some (name, value)
  | _ => none

def flag? : Given → Option String
  | .flag name => some name
  | _ => none

def format? : Given → Option Format
  | .format chosen => some chosen
  | _ => none

/-- The option may be given once, and is what the earlier one gives. -/
def Repeats : Given → Given → Prop
  | .catalog _, earlier => earlier.catalog?.isSome = true
  | .config _, earlier => earlier.config?.isSome = true
  | .strict, earlier => earlier = .strict
  | .format _, earlier => earlier.format?.isSome = true
  | _, _ => False

/-- How the name and the value of an option are written. -/
inductive Written : Given → String → String → Prop where
  | catalog {path : String} (hpath : path ≠ "") : Written (.catalog path) "catalog" path
  | config {path : String} (hpath : path ≠ "") : Written (.config path) "config" path
  | profile {name : String} : Written (.profile name) "profile" name
  | property {before value : String} (hfirst : '=' ∉ before.toList) (hname : Text.trim before ≠ "") :
      Written (.property (Text.trim before) value) "property" (before ++ "=" ++ value)
  | flag {name : String} : Written (.flag name) "flag" name
  | json : Written (.format .json) "format" "json"
  | drawing : Written (.format .drawing) "format" "dot"

/-- The words of an option. A value may stand in a word of its own. -/
inductive Form : Given → List String → Prop where
  | strict : Form .strict ["--strict"]
  | joined {first : Given} {name text : String} (hwritten : Written first name text) :
      Form first ["--" ++ name ++ "=" ++ text]
  | apart {first : Given} {name text : String} (hwritten : Written first name text)
      (htext : Arguments.isValue text = true) : Form first ["--" ++ name, text]

/-- Options one after the other. Two dashes may stand behind them. -/
inductive Spelled : List Given → List String → Prop where
  | none : Spelled [] []
  | closed : Spelled [] ["--"]
  | next {first : Given} {begun : List String} {given : List Given} {words : List String}
      (hfirst : Form first begun) (hrest : Spelled given words) :
      Spelled (first :: given) (begun ++ words)

/-- No option that may be given once is given twice. -/
def Single (given : List Given) : Prop :=
  given.Pairwise fun earlier later => ¬later.Repeats earlier

end Given

namespace Arguments

open Given (Written Form Spelled Single)

/-- The arguments that options amount to, if there is a catalog among them. -/
def ofGiven? (given : List Given) : Option Arguments :=
  (given.findSome? Given.catalog?).map fun catalog =>
    { catalog
      config := given.findSome? Given.config?
      profiles := given.filterMap Given.profile?
      properties := given.filterMap Given.property?
      flags := given.filterMap Given.flag?
      strict := decide (.strict ∈ given)
      format := (given.findSome? Given.format?).getD .json }

/-- What has been read of options. -/
def Reading.ofGiven (given : List Given) : Reading where
  catalog := given.findSome? Given.catalog?
  config := given.findSome? Given.config?
  profiles := given.filterMap Given.profile?
  properties := given.filterMap Given.property?
  flags := given.filterMap Given.flag?
  strict := decide (.strict ∈ given)
  format := given.findSome? Given.format?

/-! ### Equals signs -/

/-- The characters in front of the first equals sign, and those from it on. -/
theorem takeWhile_dropWhile_iff {chars before behind : List Char} :
    chars.takeWhile (· ≠ '=') = before ∧ chars.dropWhile (· ≠ '=') = behind
      ↔ chars = before ++ behind ∧ '=' ∉ before ∧ ∀ c ∈ behind.head?, c = '=' := by
  constructor
  · rintro ⟨rfl, rfl⟩
    refine ⟨List.takeWhile_append_dropWhile.symm, fun hmem => ?_, fun c hc => ?_⟩
    · simpa using List.mem_takeWhile_imp hmem
    · have hhead := List.head?_dropWhile_not (· ≠ '=') chars
      rw [Option.mem_def.mp hc] at hhead
      simpa using hhead
  · rintro ⟨rfl, hbefore, hbehind⟩
    have hall : ∀ c ∈ before, decide (c ≠ '=') = true := by
      intro c hc
      simpa using fun heq : c = '=' => hbefore (heq ▸ hc)
    rw [List.takeWhile_append_of_pos hall, List.dropWhile_append_of_pos hall]
    cases behind with
    | nil => simp
    | cons c behind =>
        have hc := hbehind c rfl
        simp [hc]

theorem property?_eq_some_iff {text name value : String} :
    property? text = some (name, value)
      ↔ ∃ before, text = before ++ "=" ++ value ∧ '=' ∉ before.toList ∧ Text.trim before = name
        ∧ name ≠ "" := by
  have hempty : ∀ chars : List Char, chars.isEmpty = false ↔ String.ofList chars ≠ "" := by
    intro chars
    cases chars <;> simp
  constructor
  · intro hproperty
    unfold property? at hproperty
    dsimp only at hproperty
    split at hproperty
    · cases hproperty
    · next c behind hdrop =>
      obtain ⟨htext, hbefore, hfirst⟩ := takeWhile_dropWhile_iff.mp ⟨rfl, hdrop⟩
      cases hfirst c rfl
      split at hproperty
      · cases hproperty
      · next hname =>
        cases hproperty
        refine ⟨String.ofList (text.toList.takeWhile (· ≠ '=')), ?_, ?_, ?_, ?_⟩
        · rw [← String.toList_inj]
          simp only [String.toList_append, String.toList_ofList, List.append_assoc]
          exact htext
        · rwa [String.toList_ofList]
        · rw [Text.trim, String.toList_ofList]
        · exact (hempty _).mp (Bool.eq_false_iff.mpr hname)
  · rintro ⟨before, rfl, hbefore, rfl, hname⟩
    have hchars : (before ++ "=" ++ value).toList = before.toList ++ '=' :: value.toList := by simp
    obtain ⟨htake, hdrop⟩ := takeWhile_dropWhile_iff.mpr ⟨hchars, hbefore, by simp⟩
    unfold property?
    dsimp only
    rw [htake, hdrop]
    dsimp only
    rw [if_neg (Bool.eq_false_iff.mp ((hempty _).mpr hname)), String.ofList_toList]
    rfl

theorem long?_eq_some_iff {argument name : String} {value : Option String} :
    long? argument = some (name, value)
      ↔ argument = "--" ++ name ++ value.elim "" ("=" ++ ·) ∧ '=' ∉ name.toList := by
  constructor
  · intro hlong
    unfold long? at hlong
    split at hlong
    · next rest hrest =>
      dsimp only at hlong
      split at hlong
      · next hdrop =>
        obtain ⟨hname, hequals, -⟩ := takeWhile_dropWhile_iff.mp ⟨rfl, hdrop⟩
        cases hlong
        refine ⟨?_, by rwa [String.toList_ofList]⟩
        rw [← String.toList_inj, hrest]
        simpa using hname
      · next c behind hdrop =>
        obtain ⟨hname, hequals, hfirst⟩ := takeWhile_dropWhile_iff.mp ⟨rfl, hdrop⟩
        cases hfirst c rfl
        cases hlong
        refine ⟨?_, by rwa [String.toList_ofList]⟩
        rw [← String.toList_inj, hrest]
        simpa using hname
    · cases hlong
  · rintro ⟨rfl, hname⟩
    have hchars : ("--" ++ name ++ value.elim "" ("=" ++ ·)).toList
        = '-' :: '-' :: (name.toList ++ value.elim [] ('=' :: ·.toList)) := by
      cases value <;> simp
    have hbehind : ∀ c ∈ (value.elim [] ('=' :: ·.toList)).head?, c = '=' := by
      cases value <;> simp
    obtain ⟨htake, hdrop⟩ := takeWhile_dropWhile_iff.mpr ⟨rfl, hname, hbehind⟩
    unfold long?
    split
    · next rest hrest =>
      rw [hchars] at hrest
      cases hrest
      rw [htake, hdrop, String.ofList_toList]
      cases value with
      | none => rfl
      | some value =>
          dsimp only [Option.elim]
          rw [String.ofList_toList]
    · next hno => exact absurd hchars (hno _)

/-! ### Options -/

/-- What an option changes, if it may still be given. -/
def Reading.take (reading : Reading) : Given → Option Reading
  | .catalog path => reading.catalog.elim (some { reading with catalog := some path }) fun _ => none
  | .config path => reading.config.elim (some { reading with config := some path }) fun _ => none
  | .profile name => some { reading with profiles := reading.profiles ++ [name] }
  | .property name value => some { reading with properties := reading.properties ++ [(name, value)] }
  | .flag name => some { reading with flags := reading.flags ++ [name] }
  | .strict => if reading.strict then none else some { reading with strict := true }
  | .format chosen => reading.format.elim (some { reading with format := some chosen }) fun _ => none

theorem path?_eq_some_iff {text path : String} : path? text = some path ↔ text = path ∧ text ≠ "" := by
  unfold path?
  split <;> simp_all

theorem once_bind_eq_some_iff {α : Type} {before value : Option α} {change : Option α → Reading}
    {next : Reading} :
    ((once before value).bind fun after => some (change after)) = some next
      ↔ ∃ last, value = some last
        ∧ (before.elim (some (change (some last))) fun _ => none) = some next := by
  cases before <;> cases value <;> simp [once]

/-- An option and its value are read as they are written. -/
theorem exists_change_iff {reading next : Reading} {name text : String} :
    (∃ change, option? name = some change ∧ change text reading = some next)
      ↔ ∃ first, Written first name text ∧ reading.take first = some next := by
  constructor
  · rintro ⟨change, hoption, hchange⟩
    unfold option? at hoption
    split at hoption
    · cases hoption
      obtain ⟨path, hpath, htake⟩ := once_bind_eq_some_iff.mp hchange
      obtain ⟨rfl, hne⟩ := path?_eq_some_iff.mp hpath
      exact ⟨_, .catalog hne, htake⟩
    · cases hoption
      obtain ⟨path, hpath, htake⟩ := once_bind_eq_some_iff.mp hchange
      obtain ⟨rfl, hne⟩ := path?_eq_some_iff.mp hpath
      exact ⟨_, .config hne, htake⟩
    · cases hoption
      exact ⟨_, .profile, hchange⟩
    · cases hoption
      obtain ⟨⟨name, value⟩, hproperty, htake⟩ := Option.bind_eq_some_iff.mp hchange
      obtain ⟨before, rfl, hfirst, rfl, hname⟩ := property?_eq_some_iff.mp hproperty
      exact ⟨_, .property hfirst hname, htake⟩
    · cases hoption
      exact ⟨_, .flag, hchange⟩
    · cases hoption
      obtain ⟨chosen, hformat, htake⟩ := once_bind_eq_some_iff.mp hchange
      unfold format? at hformat
      split at hformat
      · cases hformat
        exact ⟨_, .json, htake⟩
      · cases hformat
        exact ⟨_, .drawing, htake⟩
      · cases hformat
    · cases hoption
  · rintro ⟨first, hwritten, htake⟩
    cases hwritten with
    | catalog hne =>
        exact ⟨_, rfl, once_bind_eq_some_iff.mpr ⟨_, path?_eq_some_iff.mpr ⟨rfl, hne⟩, htake⟩⟩
    | config hne =>
        exact ⟨_, rfl, once_bind_eq_some_iff.mpr ⟨_, path?_eq_some_iff.mpr ⟨rfl, hne⟩, htake⟩⟩
    | profile => exact ⟨_, rfl, htake⟩
    | @property before value hfirst hname =>
        have hproperty : property? (before ++ "=" ++ value) = some (Text.trim before, value) :=
          property?_eq_some_iff.mpr ⟨before, rfl, hfirst, rfl, hname⟩
        exact ⟨_, rfl, Option.bind_eq_some_iff.mpr ⟨_, hproperty, htake⟩⟩
    | flag => exact ⟨_, rfl, htake⟩
    | json => exact ⟨_, rfl, once_bind_eq_some_iff.mpr ⟨_, rfl, htake⟩⟩
    | drawing => exact ⟨_, rfl, once_bind_eq_some_iff.mpr ⟨_, rfl, htake⟩⟩

/-! ### Words -/

theorem not_mem_of_written {first : Given} {name text : String} (hwritten : Written first name text) :
    '=' ∉ name.toList := by
  cases hwritten <;> decide

theorem long?_joined {first : Given} {name text : String} (hwritten : Written first name text) :
    long? ("--" ++ name ++ "=" ++ text) = some (name, some text) :=
  long?_eq_some_iff.mpr ⟨String.append_assoc .., not_mem_of_written hwritten⟩

theorem long?_apart {first : Given} {name text : String} (hwritten : Written first name text) :
    long? ("--" ++ name) = some (name, none) :=
  long?_eq_some_iff.mpr ⟨String.append_empty.symm, not_mem_of_written hwritten⟩

section Words

variable {reading next : Reading} {words : List String} {arguments : Arguments} {first : Given}
  {name text : String}

theorem readPlan_strict (htake : reading.take .strict = some next) :
    readPlan reading ("--strict" :: words) = readPlan next words := by
  rw [readPlan, show long? "--strict" = some ("strict", none) from rfl]
  rw [Reading.take] at htake
  split at htake
  · cases htake
  · next hnew =>
    cases htake
    exact if_neg hnew

theorem readPlan_joined (hwritten : Written first name text) (htake : reading.take first = some next) :
    readPlan reading (("--" ++ name ++ "=" ++ text) :: words) = readPlan next words := by
  obtain ⟨change, hoption, hchange⟩ := exists_change_iff.mpr ⟨first, hwritten, htake⟩
  rw [readPlan, long?_joined hwritten]
  simp only [hoption, hchange]
  rfl

theorem readPlan_apart (hwritten : Written first name text) (htext : isValue text = true)
    (htake : reading.take first = some next) :
    readPlan reading (("--" ++ name) :: text :: words) = readPlan next words := by
  obtain ⟨change, hoption, hchange⟩ := exists_change_iff.mpr ⟨first, hwritten, htake⟩
  have hlong := long?_apart hwritten
  rw [readPlan]
  split
  case h_5 heq =>
    cases hlong.symm.trans heq
    simp only [hoption, htext, hchange]
    rfl
  -- No option with a value has one of the names that are looked for in front of it.
  all_goals
    next heq =>
    cases hlong.symm.trans heq <;> cases hoption

/-- The words behind an option are read with what it changes. -/
theorem readPlan_form {begun : List String} (hform : Form first begun)
    (htake : reading.take first = some next) :
    readPlan reading (begun ++ words) = readPlan next words := by
  cases hform with
  | strict => exact readPlan_strict htake
  | joined hwritten => exact readPlan_joined hwritten htake
  | apart hwritten htext => exact readPlan_apart hwritten htext htake

/-- Words are read as the options that they spell, one after the other. -/
theorem readPlan_iff :
    readPlan reading words = some (.plan arguments)
      ↔ ∃ given final, Spelled given words ∧ given.foldlM Reading.take reading = some final
        ∧ finish final = some (.plan arguments) := by
  constructor
  · intro hread
    have hnext : ∀ {reading next : Reading} {first : Given} {begun rest : List String},
        Form first begun → reading.take first = some next →
        (∃ given final, Spelled given rest ∧ given.foldlM Reading.take next = some final
          ∧ finish final = some (.plan arguments)) →
        ∃ given final, Spelled given (begun ++ rest) ∧ given.foldlM Reading.take reading = some final
          ∧ finish final = some (.plan arguments) := by
      rintro reading next first begun rest hform htake ⟨given, final, hspelled, hfold, hfinish⟩
      refine ⟨first :: given, final, .next hform hspelled, ?_, hfinish⟩
      rw [List.foldlM_cons, htake]
      exact hfold
    fun_induction readPlan reading words with
    | case1 reading => exact ⟨[], reading, .none, rfl, hread⟩
    | case2 reading argument rest hlong hrest =>
        cases List.isEmpty_iff.mp hrest
        obtain ⟨rfl, -⟩ := long?_eq_some_iff.mp hlong
        exact ⟨[], reading, .closed, rfl, hread⟩
    | case6 reading argument rest hlong hstrict ih =>
        obtain ⟨rfl, -⟩ := long?_eq_some_iff.mp hlong
        exact hnext .strict (if_neg hstrict) (ih hread)
    | case7 reading argument rest name value hlong change hoption ih =>
        obtain ⟨next, hchange, hread⟩ := Option.bind_eq_some_iff.mp hread
        obtain ⟨first, hwritten, htake⟩ := exists_change_iff.mp ⟨change, hoption, hchange⟩
        obtain ⟨hargument, -⟩ := long?_eq_some_iff.mp hlong
        rw [Option.elim, ← String.append_assoc] at hargument
        exact hargument ▸ hnext (.joined hwritten) htake (ih next hread)
    | case9 reading argument name hempty hhelp hstrict hlong change value rest hoption hvalue ih =>
        obtain ⟨next, hchange, hread⟩ := Option.bind_eq_some_iff.mp hread
        obtain ⟨first, hwritten, htake⟩ := exists_change_iff.mp ⟨change, hoption, hchange⟩
        obtain ⟨hargument, -⟩ := long?_eq_some_iff.mp hlong
        rw [Option.elim, String.append_empty] at hargument
        exact hargument ▸ hnext (.apart hwritten hvalue) htake (ih next hread)
    | _ => cases hread
  · rintro ⟨given, final, hspelled, hfold, hfinish⟩
    induction hspelled generalizing reading with
    | none =>
        cases hfold
        exact hfinish
    | closed =>
        cases hfold
        exact hfinish
    | next hform hrest ih =>
        rw [List.foldlM_cons] at hfold
        obtain ⟨next, htake, hfold⟩ := Option.bind_eq_some_iff.mp hfold
        rw [readPlan_form hform htake]
        exact ih hfold

end Words

/-! ### One reading -/

section Unique

variable {first other : Given} {given others : List Given} {words : List String}

theorem take_injective : Function.Injective ({} : Reading).take := by
  intro first other hsame
  cases first <;> cases other <;> simp_all [Reading.take]

/-- An option can be told from how it is written. -/
theorem written_unique {name text : String} (hfirst : Written first name text)
    (hother : Written other name text) : first = other := by
  have htake : ∀ given, ∃ next, ({} : Reading).take given = some next := by
    intro given
    cases given <;> exact ⟨_, rfl⟩
  obtain ⟨next, hnext⟩ := htake first
  obtain ⟨next', hnext'⟩ := htake other
  obtain ⟨change, hoption, hchange⟩ := exists_change_iff.mpr ⟨first, hfirst, hnext⟩
  obtain ⟨change', hoption', hchange'⟩ := exists_change_iff.mpr ⟨other, hother, hnext'⟩
  cases hoption.symm.trans hoption'
  exact take_injective (hnext.trans (hchange.symm.trans (hchange'.trans hnext'.symm)))

theorem ne_strict_of_written {name text : String} (hwritten : Written first name text) :
    name ≠ "strict" := by
  cases hwritten <;> decide

/-- Where the words of an option end can be seen from the words. -/
theorem form_unique {begun begun' rest rest' : List String} (hfirst : Form first begun)
    (hother : Form other begun') (heq : begun ++ rest = begun' ++ rest') :
    first = other ∧ rest = rest' := by
  have hstrict : long? "--strict" = some ("strict", none) := rfl
  have hlong : (begun ++ rest).head?.bind long? = (begun' ++ rest').head?.bind long? := by rw [heq]
  cases hfirst with
  | strict =>
      cases hother with
      | strict => exact ⟨rfl, (List.cons.inj heq).2⟩
      | joined hwritten' => simp [hstrict, long?_joined hwritten'] at hlong
      | apart hwritten' =>
          simp [hstrict, long?_apart hwritten', (ne_strict_of_written hwritten').symm] at hlong
  | joined hwritten =>
      cases hother with
      | strict => simp [hstrict, long?_joined hwritten] at hlong
      | joined hwritten' =>
          simp only [List.cons_append, List.head?_cons, Option.bind_some, long?_joined hwritten,
            long?_joined hwritten'] at hlong
          cases hlong
          exact ⟨written_unique hwritten hwritten', (List.cons.inj heq).2⟩
      | apart hwritten' => simp [long?_joined hwritten, long?_apart hwritten'] at hlong
  | apart hwritten =>
      cases hother with
      | strict => simp [hstrict, long?_apart hwritten, ne_strict_of_written hwritten] at hlong
      | joined hwritten' => simp [long?_joined hwritten', long?_apart hwritten] at hlong
      | apart hwritten' =>
          simp only [List.cons_append, List.head?_cons, Option.bind_some, long?_apart hwritten,
            long?_apart hwritten'] at hlong
          cases hlong
          obtain ⟨htext, hrest⟩ := List.cons.inj (List.cons.inj heq).2
          cases htext
          exact ⟨written_unique hwritten hwritten', hrest⟩

/-- No options are given. -/
def Ended (words : List String) : Prop :=
  words = [] ∨ words = ["--"]

theorem not_ended_form {begun rest : List String} (hform : Form first begun) : ¬Ended (begun ++ rest) := by
  rintro (heq | heq)
  · cases hform <;> cases heq
  · have hclosed : long? "--" = some ("", none) := rfl
    cases hform with
    | strict => simp at heq
    | joined hwritten =>
        have hword := congrArg long? (List.cons.inj heq).1
        simp [hclosed, long?_joined hwritten] at hword
    | apart hwritten => cases (List.cons.inj heq).2

theorem spelled_of_ended (hspelled : Spelled given words) (hended : Ended words) : given = [] := by
  cases hspelled with
  | none => rfl
  | closed => rfl
  | next hform => exact absurd hended (not_ended_form hform)

/-- Words spell one list of options. -/
theorem spelled_unique (hgiven : Spelled given words) (hothers : Spelled others words) :
    given = others := by
  induction hgiven generalizing others with
  | none => exact (spelled_of_ended hothers (.inl rfl)).symm
  | closed => exact (spelled_of_ended hothers (.inr rfl)).symm
  | @next first begun given words hform hrest ih =>
      generalize hall : begun ++ words = all at hothers
      cases hothers with
      | none => exact absurd (.inl hall) (not_ended_form hform)
      | closed => exact absurd (.inr hall) (not_ended_form hform)
      | next hform' hrest' =>
          obtain ⟨rfl, rfl⟩ := form_unique hform hform' hall
          rw [ih hrest']

end Unique

/-! ### Options given once -/

section Once

variable {given : List Given} {first : Given}

theorem ofGiven_snoc :
    Reading.ofGiven (given ++ [first])
      = { catalog := (given.findSome? Given.catalog?).or first.catalog?
          config := (given.findSome? Given.config?).or first.config?
          profiles := given.filterMap Given.profile? ++ first.profile?.toList
          properties := given.filterMap Given.property? ++ first.property?.toList
          flags := given.filterMap Given.flag? ++ first.flag?.toList
          strict := decide (.strict ∈ given ∨ .strict = first)
          format := (given.findSome? Given.format?).or first.format? } := by
  have hsome : ∀ {α : Type} (pick : Given → Option α),
      (given ++ [first]).findSome? pick = (given.findSome? pick).or (pick first) := by
    intro α pick
    cases hfirst : pick first <;> simp [List.findSome?_append, hfirst]
  have hmap : ∀ {α : Type} (pick : Given → Option α),
      (given ++ [first]).filterMap pick = given.filterMap pick ++ (pick first).toList := by
    intro α pick
    cases hfirst : pick first <;> simp [hfirst]
  simp only [Reading.ofGiven, hsome, hmap, List.mem_append, List.mem_singleton]

/-- What may be given once is taken unless it has been given. -/
theorem take_ofGiven_iff {next : Reading} :
    (Reading.ofGiven given).take first = some next
      ↔ (∀ earlier ∈ given, ¬first.Repeats earlier) ∧ .ofGiven (given ++ [first]) = next := by
  have hnew : ∀ {α : Type} (pick : Given → Option α),
      (∀ earlier ∈ given, ¬(pick earlier).isSome = true) ↔ given.findSome? pick = none := by
    simp
  have hstrict : (∀ earlier ∈ given, ¬earlier = .strict) ↔ .strict ∉ given :=
    ⟨fun hne hmem => hne _ hmem rfl, fun hmem earlier hearlier heq => hmem (heq ▸ hearlier)⟩
  rw [ofGiven_snoc]
  cases first
  all_goals
    simp only [Given.Repeats, hnew, hstrict]
    simp only [Reading.take, Reading.ofGiven, Given.catalog?, Given.config?, Given.profile?,
      Given.property?, Given.flag?, Given.format?]
  case catalog => cases given.findSome? Given.catalog? <;> simp
  case config => cases given.findSome? Given.config? <;> simp
  case format => cases given.findSome? Given.format? <;> simp
  case strict => by_cases hbefore : .strict ∈ given <;> simp [hbefore]
  all_goals simp

theorem foldlM_take_iff {before : List Given} {final : Reading} (hsingle : Single before) :
    given.foldlM Reading.take (.ofGiven before) = some final
      ↔ Single (before ++ given) ∧ .ofGiven (before ++ given) = final := by
  induction given generalizing before with
  | nil => simp [hsingle]
  | cons first given ih =>
      have hsnoc : Single (before ++ [first]) ↔ ∀ earlier ∈ before, ¬first.Repeats earlier := by
        unfold Single at hsingle ⊢
        simp [List.pairwise_append, hsingle]
      have happend : before ++ first :: given = before ++ [first] ++ given := by simp
      rw [List.foldlM_cons, happend]
      constructor
      · intro hfold
        obtain ⟨next, htake, hfold⟩ := Option.bind_eq_some_iff.mp hfold
        obtain ⟨hnew, rfl⟩ := take_ofGiven_iff.mp htake
        exact (ih (hsnoc.mpr hnew)).mp hfold
      · rintro ⟨hall, hfinal⟩
        have hfirst : Single (before ++ [first]) := (List.pairwise_append.mp hall).1
        have htake := take_ofGiven_iff.mpr ⟨hsnoc.mp hfirst, rfl⟩
        exact Option.bind_eq_some_iff.mpr ⟨_, htake, (ih hfirst).mpr ⟨hall, hfinal⟩⟩

end Once

theorem finish_ofGiven (given : List Given) :
    finish (.ofGiven given) = (ofGiven? given).map .plan := by
  unfold finish ofGiven? Reading.ofGiven
  cases given.findSome? Given.catalog? <;> rfl

theorem readPlan_nil_iff {rest : List String} {arguments : Arguments} :
    readPlan {} rest = some (.plan arguments)
      ↔ ∃ given, Spelled given rest ∧ Single given ∧ ofGiven? given = some arguments := by
  have hfold : ∀ given final, given.foldlM Reading.take {} = some final
      ↔ Single given ∧ .ofGiven given = final :=
    fun given final => @foldlM_take_iff given [] final .nil
  simp only [readPlan_iff, hfold]
  constructor
  · rintro ⟨given, final, hspelled, ⟨hsingle, rfl⟩, hfinish⟩
    rw [finish_ofGiven] at hfinish
    obtain ⟨found, hfound, heq⟩ := Option.map_eq_some_iff.mp hfinish
    cases heq
    exact ⟨given, hspelled, hsingle, hfound⟩
  · rintro ⟨given, hspelled, hsingle, harguments⟩
    refine ⟨given, _, hspelled, ⟨hsingle, rfl⟩, ?_⟩
    rw [finish_ofGiven, harguments]
    rfl

/-- A command line is accepted exactly if it spells options that may be given together, among them a
catalog. -/
theorem read_eq_plan_iff {words : List String} {arguments : Arguments} :
    read words = some (.plan arguments)
      ↔ ∃ given rest, words = "plan" :: rest ∧ Spelled given rest ∧ Single given
        ∧ ofGiven? given = some arguments := by
  constructor
  · intro hread
    unfold read at hread
    split at hread
    · cases hread
    · next first rest =>
      split at hread
      · obtain ⟨given, hspelled⟩ := readPlan_nil_iff.mp hread
        exact ⟨given, rest, rfl, hspelled⟩
      · split at hread <;> cases hread
      · cases hread
      · cases hread
      · split at hread
        · cases hread
        · split at hread <;> cases hread
  · rintro ⟨given, rest, rfl, hspelled⟩
    exact readPlan_nil_iff.mpr ⟨given, hspelled⟩

end Arguments

end Assembly
