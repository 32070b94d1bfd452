import Mathlib.Data.List.Nodup
import Assembly.Component.Record
import Assembly.Proofs.Json.Records

/-!
# Components as records

What a component and its parts look like when they are written, and that they are read as they were. All
fields with a default may be left out.
-/

namespace Assembly

open Json

namespace NameSet

theorem eq_of_mem_iff {first second : NameSet} (hmem : ∀ name, name ∈ first ↔ name ∈ second) :
    first = second := by
  obtain ⟨names, hnames⟩ := first
  obtain ⟨others, hothers⟩ := second
  have hne : ∀ {a b : String}, a < b → a ≠ b := fun hlt heq => String.lt_irrefl _ (heq ▸ hlt)
  have hperm : names.Perm others :=
    (List.perm_ext_iff_of_nodup (hnames.imp hne) (hothers.imp hne)).mpr hmem
  have hsame : names = others := hperm.eq_of_pairwise
    (fun a b _ _ hab hba => absurd (String.lt_trans hab hba) (String.lt_irrefl a)) hnames hothers
  subst hsame
  rfl

theorem ofList_toList (set : NameSet) : ofList set.toList = set :=
  eq_of_mem_iff fun _ => mem_ofList

end NameSet

namespace Dependency

def fields (dependency : Dependency) : List Field :=
  [⟨"requested_type", False, (· = .string dependency.requestedType)⟩,
    ⟨"qualifier", dependency.qualifier = none, (· = .orNull .string dependency.qualifier)⟩,
    ⟨"wrapper", dependency.handover = .direct, (· = .string dependency.handover.name)⟩,
    ⟨"allow_missing", dependency.allowMissing = false, (· = .bool dependency.allowMissing)⟩,
    ⟨"literal", dependency.literal = none, (· = .orNull .string dependency.literal)⟩]

theorem ofJson_handover (handover : Handover) :
    Handover.ofJson (.string handover.name) = .ok handover := by
  cases handover <;> rfl

theorem isObject_toJson (dependency : Dependency) :
    IsObject dependency.fields dependency.toJson := by
  refine ⟨_, rfl, shows_of_forall₂ (by simp [fields]) ?_⟩
  simp [fields]

theorem ofJson_eq_ok {dependency : Dependency} {written : Value}
    (hwritten : IsObject dependency.fields written) : ofJson written = .ok dependency := by
  obtain ⟨members, rfl, hshows⟩ := hwritten
  have htype : (Gather.required "requested_type" Decode.text).Gives ⟨members, .missingField⟩
      dependency.requestedType :=
    hshows.required 0 rfl fun _ heq => heq ▸ rfl
  have hqualifier : (Gather.withDefault "qualifier" none (.option .text)).Gives
      ⟨members, .missingField⟩ dependency.qualifier :=
    hshows.withDefault 1 rfl fun _ heq => heq ▸ decode_orNull _
  have hwrapper : (Gather.withDefault "wrapper" .direct Handover.ofJson).Gives
      ⟨members, .missingField⟩ dependency.handover :=
    hshows.withDefault 2 rfl fun _ heq => heq ▸ ofJson_handover _
  have hmissing : (Gather.withDefault "allow_missing" false .flag).Gives
      ⟨members, .missingField⟩ dependency.allowMissing :=
    hshows.withDefault 3 rfl fun _ heq => heq ▸ rfl
  have hliteral : (Gather.withDefault "literal" none (.option .text)).Gives
      ⟨members, .missingField⟩ dependency.literal :=
    hshows.withDefault 4 rfl fun _ heq => heq ▸ decode_orNull _
  have hgather := ((((htype.map mk).seq hqualifier).seq hwrapper).seq hmissing).seq hliteral
  exact hgather.ofMembers

theorem plain {dependency : Dependency} {written : Value} {depth : Nat}
    (hwritten : IsObject dependency.fields written) : written.Plain (depth + 1) := by
  refine hwritten.plain ?_
  simp only [fields, List.forall_mem_cons, forall_eq]
  exact ⟨.string, plain_orNull _, .string, .bool, plain_orNull _, nofun⟩

end Dependency

namespace InjectionSite

def fields (site : InjectionSite) : List Field :=
  [⟨"kind", False, (· = .string site.kind.name)⟩,
    ⟨"name", site.name = "", (· = .string site.name)⟩,
    ⟨"dependencies", site.dependencies = [],
      IsArray (fun dependency => IsObject dependency.fields) site.dependencies⟩]

theorem ofJson_kind (kind : InjectionKind) :
    InjectionKind.ofJson (.string kind.name) = .ok kind := by
  cases kind <;> rfl

theorem isObject_toJson (site : InjectionSite) : IsObject site.fields site.toJson := by
  have hdependencies := isArray_map Dependency.toJson Dependency.isObject_toJson site.dependencies
  refine ⟨_, rfl, shows_of_forall₂ (by simp [fields]) ?_⟩
  simp [fields, hdependencies]

theorem ofJson_eq_ok {site : InjectionSite} {written : Value}
    (hwritten : IsObject site.fields written) : ofJson written = .ok site := by
  obtain ⟨members, rfl, hshows⟩ := hwritten
  have hkind : (Gather.required "kind" InjectionKind.ofJson).Gives ⟨members, .missingField⟩
      site.kind :=
    hshows.required 0 rfl fun _ heq => heq ▸ ofJson_kind _
  have hname : (Gather.withDefault "name" "" .text).Gives ⟨members, .missingField⟩ site.name :=
    hshows.withDefault 1 rfl fun _ heq => heq ▸ rfl
  have hdependencies : (Gather.withDefault "dependencies" [] (.list Dependency.ofJson)).Gives
      ⟨members, .missingField⟩ site.dependencies :=
    hshows.withDefault 2 rfl fun _ harray => harray.decode fun _ _ => Dependency.ofJson_eq_ok
  have hgather := ((hkind.map mk).seq hname).seq hdependencies
  exact hgather.ofMembers

theorem plain {site : InjectionSite} {written : Value} {depth : Nat}
    (hwritten : IsObject site.fields written) : written.Plain (depth + 3) := by
  refine hwritten.plain ?_
  simp only [fields, List.forall_mem_cons, forall_eq]
  exact ⟨.string, .string, fun _ harray => harray.plain fun _ _ => Dependency.plain, nofun⟩

end InjectionSite

namespace Hooks

def fields (hooks : Hooks) : List Field :=
  [⟨"init", hooks.init = [], (· = .strings hooks.init)⟩,
    ⟨"destroy", hooks.destroy = [], (· = .strings hooks.destroy)⟩]

theorem isObject_toJson (hooks : Hooks) : IsObject hooks.fields hooks.toJson := by
  refine ⟨_, rfl, shows_of_forall₂ (by simp [fields]) ?_⟩
  simp [fields]

theorem ofJson_eq_ok {hooks : Hooks} {written : Value}
    (hwritten : IsObject hooks.fields written) : ofJson written = .ok hooks := by
  obtain ⟨members, rfl, hshows⟩ := hwritten
  have hinit : (Gather.withDefault "init" [] (.list .text)).Gives ⟨members, .missingField⟩
      hooks.init :=
    hshows.withDefault 0 rfl fun _ heq => heq ▸ decode_strings _
  have hdestroy : (Gather.withDefault "destroy" [] (.list .text)).Gives ⟨members, .missingField⟩
      hooks.destroy :=
    hshows.withDefault 1 rfl fun _ heq => heq ▸ decode_strings _
  have hgather := (hinit.map mk).seq hdestroy
  exact hgather.ofMembers

theorem plain {hooks : Hooks} {written : Value} {depth : Nat}
    (hwritten : IsObject hooks.fields written) : written.Plain (depth + 2) := by
  refine hwritten.plain ?_
  simp only [fields, List.forall_mem_cons, forall_eq]
  exact ⟨plain_strings _, plain_strings _, nofun⟩

end Hooks

namespace Condition

def kind : Condition → Kind
  | .property _ _ _ => .property
  | .flags _ => .flags
  | .missing _ _ => .missing
  | .present _ _ => .present
  | .profile _ _ => .profile

/-- The fields that belong to the kind of the condition. -/
def ownFields : Condition → List Field
  | .property name expected matchIfMissing =>
    [⟨"name", False, (· = .string name)⟩,
      ⟨"expected_value", expected = none, (· = .orNull .string expected)⟩,
      ⟨"match_if_missing", matchIfMissing = false, (· = .bool matchIfMissing)⟩]
  | .flags names => [⟨"names", False, (· = .strings names)⟩]
  | .missing types names | .present types names =>
    [⟨"target_types", types = [], (· = .strings types)⟩,
      ⟨"target_names", names = [], (· = .strings names)⟩]
  | .profile entries negated =>
    [⟨"profiles", False, (· = .strings entries)⟩,
      ⟨"negated", negated = false, (· = .bool negated)⟩]

def fields (condition : Condition) : List Field :=
  ⟨"kind", False, (· = .string condition.kind.name)⟩ :: condition.ownFields

theorem ofJson_kindName (kind : Kind) : Kind.ofJson (.string kind.name) = .ok kind := by
  cases kind <;> rfl

theorem isObject_toJson (condition : Condition) : IsObject condition.fields condition.toJson := by
  cases condition with
  | property name expected matchIfMissing =>
      refine ⟨_, rfl, shows_of_forall₂ (by simp [fields, ownFields]) ?_⟩
      simp [fields, ownFields, kind]
  | flags names =>
      refine ⟨_, rfl, shows_of_forall₂ (by simp [fields, ownFields]) ?_⟩
      simp [fields, ownFields, kind]
  | missing types names =>
      refine ⟨_, rfl, shows_of_forall₂ (by simp [fields, ownFields]) ?_⟩
      simp [fields, ownFields, kind]
  | present types names =>
      refine ⟨_, rfl, shows_of_forall₂ (by simp [fields, ownFields]) ?_⟩
      simp [fields, ownFields, kind]
  | profile entries negated =>
      refine ⟨_, rfl, shows_of_forall₂ (by simp [fields, ownFields]) ?_⟩
      simp [fields, ownFields, kind]

theorem gather_gives {condition : Condition} {members : List (String × Value)}
    (hshows : Shows condition.ownFields members) :
    condition.kind.gather.Gives ⟨members, .missingField⟩ condition := by
  cases condition with
  | property name expected matchIfMissing =>
      have hname : (Gather.required "name" Decode.text).Gives ⟨members, .missingField⟩ name :=
        hshows.required 0 rfl fun _ heq => heq ▸ rfl
      have hexpected : (Gather.withDefault "expected_value" none (.option .text)).Gives
          ⟨members, .missingField⟩ expected :=
        hshows.withDefault 1 rfl fun _ heq => heq ▸ decode_orNull _
      have hmatch : (Gather.withDefault "match_if_missing" false .flag).Gives
          ⟨members, .missingField⟩ matchIfMissing :=
        hshows.withDefault 2 rfl fun _ heq => heq ▸ rfl
      exact ((hname.map property).seq hexpected).seq hmatch
  | flags names =>
      have hnames : (Gather.required "names" (.list .text)).Gives ⟨members, .missingField⟩ names :=
        hshows.required 0 rfl fun _ heq => heq ▸ decode_strings _
      exact hnames.map flags
  | missing types names =>
      have htypes : (Gather.withDefault "target_types" [] (.list .text)).Gives
          ⟨members, .missingField⟩ types :=
        hshows.withDefault 0 rfl fun _ heq => heq ▸ decode_strings _
      have hnames : (Gather.withDefault "target_names" [] (.list .text)).Gives
          ⟨members, .missingField⟩ names :=
        hshows.withDefault 1 rfl fun _ heq => heq ▸ decode_strings _
      exact (htypes.map missing).seq hnames
  | present types names =>
      have htypes : (Gather.withDefault "target_types" [] (.list .text)).Gives
          ⟨members, .missingField⟩ types :=
        hshows.withDefault 0 rfl fun _ heq => heq ▸ decode_strings _
      have hnames : (Gather.withDefault "target_names" [] (.list .text)).Gives
          ⟨members, .missingField⟩ names :=
        hshows.withDefault 1 rfl fun _ heq => heq ▸ decode_strings _
      exact (htypes.map present).seq hnames
  | profile entries negated =>
      have hentries : (Gather.required "profiles" (.list .text)).Gives ⟨members, .missingField⟩
          entries :=
        hshows.required 0 rfl fun _ heq => heq ▸ decode_strings _
      have hnegated : (Gather.withDefault "negated" false .flag).Gives ⟨members, .missingField⟩
          negated :=
        hshows.withDefault 1 rfl fun _ heq => heq ▸ rfl
      exact (hentries.map profile).seq hnegated

theorem ofJson_eq_ok {condition : Condition} {written : Value}
    (hwritten : IsObject condition.fields written) : ofJson written = .ok condition := by
  obtain ⟨members, rfl, hshows⟩ := hwritten
  have hkind : (Gather.required "kind" Kind.ofJson).Gives ⟨members, .missingField⟩
      condition.kind :=
    hshows.required 0 rfl fun _ heq => heq ▸ ofJson_kindName _
  have hfresh : "kind" ∉ condition.ownFields.map Field.name := by
    cases condition <;> simp [ownFields]
  unfold ofJson
  simp only [hkind.ofMembers, ok_bind]
  exact (gather_gives (hshows.without hfresh)).ofMembers

theorem plain {condition : Condition} {written : Value} {depth : Nat}
    (hwritten : IsObject condition.fields written) : written.Plain (depth + 2) := by
  refine hwritten.plain ?_
  cases condition with
  | property name expected matchIfMissing =>
      simp only [fields, ownFields, List.forall_mem_cons, forall_eq]
      exact ⟨.string, .string, plain_orNull _, .bool, nofun⟩
  | flags names =>
      simp only [fields, ownFields, List.forall_mem_cons, forall_eq]
      exact ⟨.string, plain_strings _, nofun⟩
  | missing types names =>
      simp only [fields, ownFields, List.forall_mem_cons, forall_eq]
      exact ⟨.string, plain_strings _, plain_strings _, nofun⟩
  | present types names =>
      simp only [fields, ownFields, List.forall_mem_cons, forall_eq]
      exact ⟨.string, plain_strings _, plain_strings _, nofun⟩
  | profile entries negated =>
      simp only [fields, ownFields, List.forall_mem_cons, forall_eq]
      exact ⟨.string, plain_strings _, .bool, nofun⟩

end Condition

namespace Component

/-- All fields but the declaration index. -/
def fields (component : Component) : List Field :=
  [⟨"qualified_name", False, (· = .string component.qualifiedName)⟩,
    ⟨"display_name", False, (· = .string component.displayName)⟩,
    ⟨"scope", component.scope = .singleton, (· = .string component.scope.name)⟩,
    ⟨"lazy", component.lazy = false, (· = .bool component.lazy)⟩,
    ⟨"primary", component.primary = false, (· = .bool component.primary)⟩,
    ⟨"implemented_interfaces", component.interfaces.toList = [],
      (· = .strings component.interfaces.toList)⟩,
    ⟨"injection_points", component.sites = [],
      IsArray (fun site => IsObject site.fields) component.sites⟩,
    ⟨"lifecycle_hooks", component.hooks = {}, IsObject component.hooks.fields⟩,
    ⟨"conditions", component.conditions = [],
      IsArray (fun condition => IsObject condition.fields) component.conditions⟩,
    ⟨"depends_on", component.dependsOn = [], (· = .strings component.dependsOn)⟩]

theorem ofJson_scope (scope : Scope) : Scope.ofJson (.string scope.name) = .ok scope := by
  cases scope <;> rfl

section Gathered

variable {component : Component} {members : List (String × Value)}
  (hshows : Shows component.fields members)
include hshows

theorem gather_gives (index : UInt32) :
    (gather index).Gives ⟨members, .missingField⟩ (component.withIndex index) := by
  have hqualified : (Gather.required "qualified_name" Decode.text).Gives ⟨members, .missingField⟩
      component.qualifiedName :=
    hshows.required 0 rfl fun _ heq => heq ▸ rfl
  have hdisplay : (Gather.required "display_name" Decode.text).Gives ⟨members, .missingField⟩
      component.displayName :=
    hshows.required 1 rfl fun _ heq => heq ▸ rfl
  have hscope : (Gather.withDefault "scope" .singleton Scope.ofJson).Gives
      ⟨members, .missingField⟩ component.scope :=
    hshows.withDefault 2 rfl fun _ heq => heq ▸ ofJson_scope _
  have hlazy : (Gather.withDefault "lazy" false .flag).Gives ⟨members, .missingField⟩
      component.lazy :=
    hshows.withDefault 3 rfl fun _ heq => heq ▸ rfl
  have hprimary : (Gather.withDefault "primary" false .flag).Gives ⟨members, .missingField⟩
      component.primary :=
    hshows.withDefault 4 rfl fun _ heq => heq ▸ rfl
  have hinterfaces : (Gather.withDefault "implemented_interfaces" [] (.list .text)).Gives
      ⟨members, .missingField⟩ component.interfaces.toList :=
    hshows.withDefault 5 rfl fun _ heq => heq ▸ decode_strings _
  have hsites : (Gather.withDefault "injection_points" [] (.list InjectionSite.ofJson)).Gives
      ⟨members, .missingField⟩ component.sites :=
    hshows.withDefault 6 rfl fun _ harray => harray.decode fun _ _ => InjectionSite.ofJson_eq_ok
  have hhooks : (Gather.withDefault "lifecycle_hooks" {} Hooks.ofJson).Gives
      ⟨members, .missingField⟩ component.hooks :=
    hshows.withDefault 7 rfl fun _ => Hooks.ofJson_eq_ok
  have hconditions : (Gather.withDefault "conditions" [] (.list Condition.ofJson)).Gives
      ⟨members, .missingField⟩ component.conditions :=
    hshows.withDefault 8 rfl fun _ harray => harray.decode fun _ _ => Condition.ofJson_eq_ok
  have hdependsOn : (Gather.withDefault "depends_on" [] (.list .text)).Gives
      ⟨members, .missingField⟩ component.dependsOn :=
    hshows.withDefault 9 rfl fun _ heq => heq ▸ decode_strings _
  unfold gather withIndex
  rw [← NameSet.ofList_toList component.interfaces]
  exact (((((((((hqualified.map _).seq hdisplay).seq hscope).seq hlazy).seq hprimary).seq
    hinterfaces).seq hsites).seq hhooks).seq hconditions).seq hdependsOn

theorem plain (depth : Nat) : ∀ entry ∈ members, entry.2.Plain (depth + 4) := by
  refine hshows.plain ?_
  simp only [fields, List.forall_mem_cons, forall_eq]
  exact ⟨.string, .string, .string, .bool, .bool, plain_strings _,
    fun _ harray => harray.plain fun _ _ => InjectionSite.plain, fun _ => Hooks.plain,
    fun _ harray => harray.plain fun _ _ => Condition.plain, plain_strings _, nofun⟩

end Gathered

end Component

end Assembly
