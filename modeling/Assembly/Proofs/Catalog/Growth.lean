import Assembly.Proofs.Lookup.Resemblance

/-!
# Catalogs with further dependencies

Dependencies may be added at the injection sites of a catalog, behind those that are there. The
dependencies of a component are then interleaved with the added ones, and so is whatever is found or
made for each of them in turn.
-/

namespace Assembly

/-- The last list consists of the kept entries and, where there is a mark, of the added ones, both
in their order. -/
inductive Interleaved {α : Type} : List Bool → List α → List α → List α → Prop where
  | nil : Interleaved [] [] [] []
  | keep (entry : α) {marks : List Bool} {kept added whole : List α}
    (hrest : Interleaved marks kept added whole) :
    Interleaved (false :: marks) (entry :: kept) added (entry :: whole)
  | add (entry : α) {marks : List Bool} {kept added whole : List α}
    (hrest : Interleaved marks kept added whole) :
    Interleaved (true :: marks) kept (entry :: added) (entry :: whole)

namespace Interleaved

variable {α β : Type} {marks marks' : List Bool} {kept kept' added added' whole whole' : List α}

theorem of_kept (list : List α) :
    Interleaved (List.replicate list.length false) list [] list := by
  induction list with
  | nil => exact nil
  | cons entry rest ih => exact keep entry ih

theorem of_added (list : List α) :
    Interleaved (List.replicate list.length true) [] list list := by
  induction list with
  | nil => exact nil
  | cons entry rest ih => exact add entry ih

theorem append (hleft : Interleaved marks kept added whole)
    (hright : Interleaved marks' kept' added' whole') :
    Interleaved (marks ++ marks') (kept ++ kept') (added ++ added') (whole ++ whole') := by
  induction hleft with
  | nil => exact hright
  | keep entry _ ih => exact keep entry ih
  | add entry _ ih => exact add entry ih

/-- Where nothing has been added everything is as it was. -/
theorem eq_of_nil (hlists : Interleaved marks kept [] whole) : whole = kept := by
  generalize hnil : ([] : List α) = added at hlists
  induction hlists with
  | nil => rfl
  | keep entry _ ih => exact congrArg (entry :: ·) (ih hnil)
  | add entry _ _ => cases hnil

theorem eq_of_kept_nil (hlists : Interleaved marks [] added whole) : whole = added := by
  generalize hnil : ([] : List α) = kept at hlists
  induction hlists with
  | nil => rfl
  | keep entry _ _ => cases hnil
  | add entry _ ih => exact congrArg (entry :: ·) (ih hnil)

theorem map (f : α → β) (hlists : Interleaved marks kept added whole) :
    Interleaved marks (kept.map f) (added.map f) (whole.map f) := by
  induction hlists with
  | nil => exact nil
  | keep entry _ ih => exact keep (f entry) ih
  | add entry _ ih => exact add (f entry) ih

/-- What the entries give rise to is interleaved like the entries. -/
theorem bind (f : α → List β) (hlists : Interleaved marks kept added whole) :
    ∃ marks', Interleaved marks' (kept.flatMap f) (added.flatMap f) (whole.flatMap f) := by
  induction hlists with
  | nil => exact ⟨[], nil⟩
  | keep entry _ ih =>
      obtain ⟨marks', hrest⟩ := ih
      exact ⟨_, (of_kept (f entry)).append hrest⟩
  | add entry _ ih =>
      obtain ⟨marks', hrest⟩ := ih
      exact ⟨_, (of_added (f entry)).append hrest⟩

theorem filterMap (f : α → Option β) (hlists : Interleaved marks kept added whole) :
    ∃ marks', Interleaved marks' (kept.filterMap f) (added.filterMap f) (whole.filterMap f) := by
  simp only [List.filterMap_eq_flatMap_toList]
  exact hlists.bind fun entry => (f entry).toList

theorem filter (p : α → Bool) (hlists : Interleaved marks kept added whole) :
    ∃ marks', Interleaved marks' (kept.filter p) (added.filter p) (whole.filter p) := by
  simp only [← List.filterMap_eq_filter]
  exact hlists.filterMap (Option.guard p)

/-- Lists that are interleaved item by item are interleaved as a whole. -/
theorem flatMap {items : List α} {marks : α → List Bool} {kept added whole : α → List β}
    (hitems : ∀ item ∈ items, Interleaved (marks item) (kept item) (added item) (whole item)) :
    Interleaved (items.flatMap marks) (items.flatMap kept) (items.flatMap added)
      (items.flatMap whole) := by
  induction items with
  | nil => exact nil
  | cons item rest ih =>
      have hrest := ih fun other hother => hitems other (List.mem_cons_of_mem item hother)
      exact (hitems item List.mem_cons_self).append hrest

end Interleaved

/-! ### Added dependencies -/

theorem map_mapIdx_of_eq {α β γ : Type} {f : β → γ} {f' : α → γ} {g : Nat → α → β}
    (hsame : ∀ place item, f (g place item) = f' item) (items : List α) :
    (items.mapIdx g).map f = items.map f' := by
  induction items generalizing g with
  | nil => rfl
  | cons item rest ih =>
      rw [List.mapIdx_cons, List.map_cons, List.map_cons, hsame, ih fun place => hsame (place + 1)]

namespace InjectionSite

variable (site : InjectionSite) (added : List Dependency)

/-- The site with further dependencies behind its own. -/
def withAdded : InjectionSite :=
  { site with dependencies := site.dependencies ++ added }

/-- The further dependencies with the positions that they get at the site. -/
def addedPositioned : List (Position × Dependency) :=
  added.mapIdx fun index dependency =>
    (site.position (site.dependencies.length + index), dependency)

theorem positioned_withAdded :
    (site.withAdded added).positioned = site.positioned ++ site.addedPositioned added := by
  unfold positioned withAdded addedPositioned
  rw [List.mapIdx_append]
  simp only [Nat.add_comm]
  rfl

theorem interleaved_positioned :
    Interleaved
      (List.replicate site.dependencies.length false ++ List.replicate added.length true)
      site.positioned (site.addedPositioned added) (site.withAdded added).positioned := by
  have hlists := (Interleaved.of_kept site.positioned).append
    (Interleaved.of_added (site.addedPositioned added))
  rw [positioned_withAdded]
  unfold positioned addedPositioned at hlists ⊢
  rwa [List.length_mapIdx, List.length_mapIdx, List.append_nil] at hlists

end InjectionSite

namespace Component

variable (component : Component) (added : Nat → List Dependency)

/-- The component with further dependencies at its sites, which are counted from the first one. -/
def withAdded : Component :=
  { component with
    sites := component.sites.mapIdx fun place site => site.withAdded (added place) }

/-- The further dependencies that the component gets. -/
def addedDependencies : List (Position × Dependency) :=
  component.sites.zipIdx.flatMap fun (site, place) => site.addedPositioned (added place)

/-- For each dependency of the component with the further ones, whether it is one of them. -/
def addedMarks : List Bool :=
  component.sites.zipIdx.flatMap fun (site, place) =>
    List.replicate site.dependencies.length false ++ List.replicate (added place).length true

theorem interleaved_dependencies :
    Interleaved (component.addedMarks added) component.dependencies
      (component.addedDependencies added) (component.withAdded added).dependencies := by
  have hkept : component.dependencies
      = component.sites.zipIdx.flatMap fun entry => entry.1.positioned := by
    have hsites : component.sites.zipIdx.map Prod.fst = component.sites :=
      List.zipIdx_map_fst 0 component.sites
    unfold dependencies
    rw [← hsites, List.flatMap_map, hsites]
  have hwhole : (component.withAdded added).dependencies
      = component.sites.zipIdx.flatMap fun entry =>
        (entry.1.withAdded (added entry.2)).positioned := by
    unfold dependencies withAdded
    rw [List.mapIdx_eq_zipIdx_map, List.flatMap_map]
  rw [hkept, hwhole]
  exact Interleaved.flatMap fun entry _ => entry.1.interleaved_positioned (added entry.2)

theorem resembles_withAdded : component.Resembles (component.withAdded added) :=
  component.resembles_of_rest _ _ _

theorem constructorCount_withAdded :
    (component.withAdded added).constructorCount = component.constructorCount := by
  have hkind : ∀ place site, (InjectionSite.withAdded site (added place)).kind = site.kind :=
    fun _ _ => rfl
  have hkinds : (component.withAdded added).sites.map (·.kind) = component.sites.map (·.kind) :=
    map_mapIdx_of_eq hkind component.sites
  have hcount := congrArg (List.countP (· = InjectionKind.constructor)) hkinds
  rwa [List.countP_map, List.countP_map] at hcount

theorem mem_addedDependencies {entry : Position × Dependency}
    (hentry : entry ∈ component.addedDependencies added) : ∃ place, entry.2 ∈ added place := by
  obtain ⟨⟨site, place⟩, -, hentry⟩ := List.mem_flatMap.mp hentry
  obtain ⟨index, hindex, rfl⟩ := List.mem_mapIdx.mp hentry
  exact ⟨place, List.getElem_mem hindex⟩

end Component

namespace Catalog

variable (catalog : Catalog) (added : Nat → Nat → List Dependency)

/-- Each component with the further dependencies that it gets. Both the components and the sites of
each of them are counted from the first one. -/
def additions : List (Component × (Nat → List Dependency)) :=
  catalog.components.mapIdx fun place component => (component, added place)

/-- The catalog with further dependencies at the sites of its components. -/
def withAdded : Catalog where
  components := (catalog.additions added).map fun item => item.1.withAdded item.2
  ascending := by
    have hindices : ((catalog.additions added).map fun item => item.1.withAdded item.2).map
          (·.declarationIndex)
        = catalog.components.map (·.declarationIndex) := by
      unfold additions
      rw [List.map_map]
      refine map_mapIdx_of_eq ?_ catalog.components
      intro place component
      rfl
    have hsorted := List.pairwise_map.mpr catalog.ascending
    rw [← hindices] at hsorted
    exact List.pairwise_map.mp hsorted

theorem components_additions : (catalog.additions added).map (·.1) = catalog.components := by
  conv_rhs => rw [← List.map_id catalog.components]
  refine map_mapIdx_of_eq ?_ catalog.components
  intro place component
  rfl

theorem mem_additions {item : Component × (Nat → List Dependency)}
    (hitem : item ∈ catalog.additions added) : ∃ place, item.2 = added place := by
  obtain ⟨place, hplace, rfl⟩ := List.mem_mapIdx.mp hitem
  exact ⟨place, rfl⟩

end Catalog

end Assembly
