import Assembly.Plan.Drawing
import Assembly.Proofs.Planning.Edges

/-!
# What a drawing tells of a plan

A drawing has a line for each step and for each edge. As long as there is no quotation mark in a name,
the name ends at the next one, and what follows tells which line it is and what it shows. So drawings of
one text show the same. Names are written as they are, though, and one with quotation marks in it can
look like several lines.
-/

namespace Assembly

def Step.sketch (step : Step) : String × Scope × Bool × Bool :=
  (step.component, step.scope, step.primary, step.lazy)

def Edge.sketch (edge : Edge) : String × String × Bool :=
  (edge.consumer, edge.provider, edge.kind.isHard)

def Unquoted (name : String) : Prop :=
  '"' ∉ name.toList

instance (name : String) : Decidable (Unquoted name) :=
  inferInstanceAs (Decidable ('"' ∉ name.toList))

namespace Drawing

/-- A step or an edge, for which a drawing has a line. -/
abbrev Line : Type :=
  Step ⊕ Edge

def Line.chars : Line → List Char
  | .inl step => step.drawing.toList
  | .inr edge => edge.drawing.toList

def Line.names : Line → List String
  | .inl step => [step.component]
  | .inr edge => [edge.consumer, edge.provider]

def Line.sketch : Line → (String × Scope × Bool × Bool) ⊕ (String × String × Bool) :=
  Sum.map Step.sketch Edge.sketch

variable {rest rest' : List Char}

/-! ### Parts of a line -/

theorem tells_name {name other : String} (hname : Unquoted name) (hother : Unquoted other)
    (heq : name.toList ++ '"' :: rest = other.toList ++ '"' :: rest') :
    name = other ∧ rest = rest' := by
  have hsplit : ∀ {name : String} {rest : List Char}, Unquoted name →
      (name.toList ++ '"' :: rest).takeWhile (· ≠ '"') = name.toList := by
    intro name rest hname
    have hall : ∀ c ∈ name.toList, decide (c ≠ '"') = true := fun c hc =>
      decide_eq_true fun hquote => hname (hquote ▸ hc)
    rw [List.takeWhile_append_of_pos hall, List.takeWhile_cons_of_neg (by simp), List.append_nil]
  have hchars := congrArg (List.takeWhile (· ≠ '"')) heq
  rw [hsplit hname, hsplit hother] at hchars
  rw [hchars] at heq
  exact ⟨String.toList_inj.mp hchars, (List.cons.inj (List.append_cancel_left heq)).2⟩

/-- A part that may be missing is there on both sides or on neither. -/
theorem tells_part {present present' : Bool} {part : List Char} (hrest : ¬part <+: rest)
    (hrest' : ¬part <+: rest')
    (heq : (if present then part else []) ++ rest = (if present' then part else []) ++ rest') :
    present = present' ∧ rest = rest' := by
  cases present with
  | true =>
      cases present' with
      | true => exact ⟨rfl, List.append_cancel_left heq⟩
      | false => exact absurd ⟨rest, heq⟩ hrest'
  | false =>
      cases present' with
      | true => exact absurd ⟨rest', heq.symm⟩ hrest
      | false => exact ⟨rfl, heq⟩

def scopeChars : Scope → List Char
  | .singleton => "box".toList
  | .prototype => "oval".toList

theorem tells_scope {scope scope' : Scope} (heq : scopeChars scope ++ rest = scopeChars scope' ++ rest') :
    scope = scope' ∧ rest = rest' := by
  cases scope <;> cases scope' <;> simp_all [scopeChars]

/-! ### Lines -/

/-- The label of a step, and the end of its line. -/
def labelChars (name : String) (lazy : Bool) : List Char :=
  (if lazy then ", label=\"".toList ++ name.toList ++ " (lazy)\"".toList else []) ++ "];\n".toList

theorem toList_step (step : Step) :
    step.drawing.toList = "    \"".toList ++ (step.component.toList ++ '"' :: (" [shape=".toList
      ++ (scopeChars step.scope ++ ((if step.primary then ", style=filled".toList else [])
        ++ labelChars step.component step.lazy)))) := by
  unfold Step.drawing Step.attributes
  cases step.scope <;> cases step.primary <;> cases step.lazy <;>
    simp [inQuotes, scopeChars, labelChars]

theorem toList_edge (edge : Edge) :
    edge.drawing.toList = "    \"".toList ++ (edge.consumer.toList ++ '"' :: (" -> \"".toList
      ++ (edge.provider.toList ++ '"' :: ((if !edge.kind.isHard then " [style=dashed]".toList else [])
        ++ ";\n".toList)))) := by
  unfold Edge.drawing
  cases edge.kind.isHard <;> simp [inQuotes]

theorem not_prefix_labelChars (name : String) (lazy : Bool) (rest : List Char) :
    ¬", style=filled".toList <+: labelChars name lazy ++ rest := by
  cases lazy <;> simp [labelChars, List.cons_prefix_cons]

theorem tells_label {name : String} {lazy lazy' : Bool}
    (heq : labelChars name lazy ++ rest = labelChars name lazy' ++ rest') :
    lazy = lazy' ∧ rest = rest' := by
  cases lazy <;> cases lazy' <;> simp_all [labelChars]

theorem tells_step {step other : Step} (hstep : Unquoted step.component)
    (hother : Unquoted other.component)
    (heq : step.drawing.toList ++ rest = other.drawing.toList ++ rest') :
    step.sketch = other.sketch ∧ rest = rest' := by
  rw [toList_step, toList_step] at heq
  simp only [List.append_assoc, List.cons_append] at heq
  obtain ⟨hname, hbehind⟩ := tells_name hstep hother (List.append_cancel_left heq)
  obtain ⟨hscope, hbehind⟩ := tells_scope (List.append_cancel_left hbehind)
  obtain ⟨hprimary, hbehind⟩ := tells_part (not_prefix_labelChars _ _ _)
    (not_prefix_labelChars _ _ _) hbehind
  -- The label repeats the name, so it can be compared only where the names are known to agree.
  rw [hname] at hbehind
  obtain ⟨hlazy, hrest⟩ := tells_label hbehind
  unfold Step.sketch
  rw [hname, hscope, hprimary, hlazy]
  exact ⟨rfl, hrest⟩

theorem tells_edge {edge other : Edge} (hconsumer : Unquoted edge.consumer)
    (hprovider : Unquoted edge.provider) (hconsumer' : Unquoted other.consumer)
    (hprovider' : Unquoted other.provider)
    (heq : edge.drawing.toList ++ rest = other.drawing.toList ++ rest') :
    edge.sketch = other.sketch ∧ rest = rest' := by
  have hend : ∀ rest : List Char, ¬" [style=dashed]".toList <+: ";\n".toList ++ rest := by
    simp [List.cons_prefix_cons]
  rw [toList_edge, toList_edge] at heq
  simp only [List.append_assoc, List.cons_append] at heq
  obtain ⟨hfrom, hbehind⟩ := tells_name hconsumer hconsumer' (List.append_cancel_left heq)
  obtain ⟨hto, hbehind⟩ := tells_name hprovider hprovider' (List.append_cancel_left hbehind)
  obtain ⟨hsoft, hbehind⟩ := tells_part (hend _) (hend _) hbehind
  unfold Edge.sketch
  rw [hfrom, hto, Bool.not_inj hsoft]
  exact ⟨rfl, List.append_cancel_left hbehind⟩

/-- What follows the first name tells a step from an edge. -/
theorem step_ne_edge {step : Step} {edge : Edge} (hstep : Unquoted step.component)
    (hedge : Unquoted edge.consumer) :
    step.drawing.toList ++ rest ≠ edge.drawing.toList ++ rest' := by
  have hopened : ∀ front back : List Char,
      " [shape=".toList ++ front ≠ " -> \"".toList ++ back := by simp
  intro heq
  rw [toList_step, toList_edge] at heq
  simp only [List.append_assoc, List.cons_append] at heq
  obtain ⟨-, hbehind⟩ := tells_name hstep hedge (List.append_cancel_left heq)
  exact hopened _ _ hbehind

theorem tells_line {line other : Line} (hline : ∀ name ∈ line.names, Unquoted name)
    (hother : ∀ name ∈ other.names, Unquoted name)
    (heq : line.chars ++ rest = other.chars ++ rest') :
    line.sketch = other.sketch ∧ rest = rest' := by
  cases line with
  | inl step =>
      have hstep := hline step.component List.mem_cons_self
      cases other with
      | inl step' =>
          obtain ⟨hsketch, hrest⟩ := tells_step hstep (hother _ List.mem_cons_self) heq
          exact ⟨congrArg Sum.inl hsketch, hrest⟩
      | inr edge' => exact absurd heq (step_ne_edge hstep (hother _ List.mem_cons_self))
  | inr edge =>
      have hconsumer := hline edge.consumer List.mem_cons_self
      have hprovider := hline edge.provider (List.mem_cons_of_mem _ List.mem_cons_self)
      cases other with
      | inl step' =>
          exact absurd heq.symm (step_ne_edge (hother _ List.mem_cons_self) hconsumer)
      | inr edge' =>
          have hconsumer' := hother edge'.consumer List.mem_cons_self
          have hprovider' := hother edge'.provider (List.mem_cons_of_mem _ List.mem_cons_self)
          obtain ⟨hsketch, hrest⟩ := tells_edge hconsumer hprovider hconsumer' hprovider' heq
          exact ⟨congrArg Sum.inr hsketch, hrest⟩

/-! ### Lists of lines -/

/-- No line begins as a drawing ends. -/
theorem chars_ne_end (line : Line) (rest : List Char) : line.chars ++ rest ≠ "\x7d\n".toList := by
  obtain ⟨more, hmore⟩ : ∃ more, line.chars = ' ' :: more := by
    cases line with
    | inl step => exact ⟨_, toList_step step⟩
    | inr edge => exact ⟨_, toList_edge edge⟩
  rw [hmore]
  simp

theorem tells_lines {lines others : List Line}
    (hlines : ∀ line ∈ lines, ∀ name ∈ line.names, Unquoted name)
    (hothers : ∀ line ∈ others, ∀ name ∈ line.names, Unquoted name)
    (heq : lines.flatMap Line.chars ++ "\x7d\n".toList
      = others.flatMap Line.chars ++ "\x7d\n".toList) :
    lines.map Line.sketch = others.map Line.sketch := by
  induction lines generalizing others with
  | nil =>
      cases others with
      | nil => rfl
      | cons second others =>
          rw [List.flatMap_cons, List.append_assoc] at heq
          exact absurd heq.symm (chars_ne_end second _)
  | cons first lines ih =>
      cases others with
      | nil =>
          rw [List.flatMap_cons, List.append_assoc] at heq
          exact absurd heq (chars_ne_end first _)
      | cons second others =>
          obtain ⟨hfirst, hlines⟩ := List.forall_mem_cons.mp hlines
          obtain ⟨hsecond, hothers⟩ := List.forall_mem_cons.mp hothers
          rw [List.flatMap_cons, List.flatMap_cons, List.append_assoc, List.append_assoc] at heq
          obtain ⟨hsketch, hrest⟩ := tells_line hfirst hsecond heq
          rw [List.map_cons, List.map_cons, hsketch, ih hlines hothers hrest]

theorem chars_of_sketch {line other : Line} (hsketch : line.sketch = other.sketch) :
    line.chars = other.chars := by
  cases line with
  | inl step =>
      cases other with
      | inl step' =>
          simp only [Line.sketch, Sum.map_inl, Sum.inl.injEq, Step.sketch, Prod.mk.injEq] at hsketch
          obtain ⟨hname, hscope, hprimary, hlazy⟩ := hsketch
          rw [Line.chars, Line.chars, toList_step, toList_step, hname, hscope, hprimary, hlazy]
      | inr edge' => cases hsketch
  | inr edge =>
      cases other with
      | inl step' => cases hsketch
      | inr edge' =>
          simp only [Line.sketch, Sum.map_inr, Sum.inr.injEq, Edge.sketch, Prod.mk.injEq] at hsketch
          obtain ⟨hfrom, hto, hhard⟩ := hsketch
          rw [Line.chars, Line.chars, toList_edge, toList_edge, hfrom, hto, hhard]

theorem flatMap_chars_of_sketches {lines others : List Line}
    (hsketches : lines.map Line.sketch = others.map Line.sketch) :
    lines.flatMap Line.chars = others.flatMap Line.chars := by
  induction lines generalizing others with
  | nil =>
      rw [List.map_eq_nil_iff.mp hsketches.symm]
  | cons first lines ih =>
      obtain ⟨second, others, rfl, hfirst, hrest⟩ := List.map_eq_cons_iff.mp hsketches.symm
      rw [List.flatMap_cons, List.flatMap_cons, chars_of_sketch hfirst, ih hrest.symm]

end Drawing

open Drawing

/-! ### Plans -/

/-- The lines of a drawing, those of the steps before those of the edges. -/
def Plan.lines (plan : Plan) : List Line :=
  plan.steps.map .inl ++ plan.edges.map .inr

theorem Plan.toList_drawing (plan : Plan) :
    plan.drawing.toList
      = "digraph wiring \x7b\n".toList ++ (plan.lines.flatMap Line.chars ++ "\x7d\n".toList) := by
  unfold drawing lines
  simp only [String.toList_append, String.toList_join, List.flatMap_append, List.flatMap_map,
    List.append_assoc, Line.chars]

theorem inl_append_inr_inj {α β : Type} {lefts lefts' : List α} {rights rights' : List β}
    (heq : lefts.map Sum.inl ++ rights.map Sum.inr = lefts'.map Sum.inl ++ rights'.map Sum.inr) :
    lefts = lefts' ∧ rights = rights' := by
  have hleft := congrArg (List.filterMap Sum.getLeft?) heq
  have hright := congrArg (List.filterMap Sum.getRight?) heq
  constructor
  · simpa [Function.comp_def] using hleft
  · simpa [Function.comp_def] using hright

theorem Plan.map_sketch_lines (plan : Plan) :
    plan.lines.map Line.sketch
      = (plan.steps.map Step.sketch).map Sum.inl ++ (plan.edges.map Edge.sketch).map Sum.inr := by
  unfold lines
  simp only [List.map_append, List.map_map]
  rfl

/-- Where no name has a quotation mark in it, the text of a drawing and what it shows determine each
other. -/
theorem Plan.drawing_eq_iff {first second : Plan}
    (hfirst : ∀ line ∈ first.lines, ∀ name ∈ line.names, Unquoted name)
    (hsecond : ∀ line ∈ second.lines, ∀ name ∈ line.names, Unquoted name) :
    first.drawing = second.drawing
      ↔ first.steps.map Step.sketch = second.steps.map Step.sketch
        ∧ first.edges.map Edge.sketch = second.edges.map Edge.sketch := by
  rw [← String.toList_inj, toList_drawing, toList_drawing]
  constructor
  · intro heq
    have hlines := tells_lines hfirst hsecond (List.append_cancel_left heq)
    rw [map_sketch_lines, map_sketch_lines] at hlines
    exact inl_append_inr_inj hlines
  · rintro ⟨hsteps, hedges⟩
    have hlines : first.lines.map Line.sketch = second.lines.map Line.sketch := by
      rw [map_sketch_lines, map_sketch_lines, hsteps, hedges]
    rw [flatMap_chars_of_sketches hlines]

namespace Planned

variable {components : List Component} {strict : Bool} {plan : Plan}
  (hplanned : Planned components strict plan)
include hplanned

/-- A drawing names components that take part. -/
theorem exists_component_of_line {line : Line} (hline : line ∈ plan.lines) :
    ∀ name ∈ line.names, ∃ component ∈ components, component.displayName = name := by
  have hcomponent : ∀ node, ∃ component ∈ components,
      component.displayName = ((Graph.ofComponents components).component node).displayName :=
    fun node => ⟨_, (Graph.mem_components_iff components).mpr ⟨node, rfl⟩, rfl⟩
  rcases List.mem_append.mp hline with hmem | hmem
  · obtain ⟨step, hstep, rfl⟩ := List.mem_map.mp hmem
    obtain ⟨node, rfl⟩ := hplanned.mem_steps_iff.mp hstep
    exact List.forall_mem_singleton.mpr (hcomponent node)
  · obtain ⟨edge, hedge, rfl⟩ := List.mem_map.mp hmem
    rw [hplanned.edges_eq] at hedge
    obtain ⟨node, -, hedge⟩ := List.mem_flatMap.mp hedge
    obtain ⟨link, -, rfl⟩ := List.mem_map.mp hedge
    refine List.forall_mem_cons.mpr ⟨hcomponent node, ?_⟩
    exact List.forall_mem_singleton.mpr (hcomponent link.target)

end Planned

namespace Catalog

variable {catalog : Catalog} {options : Options} {environment : Environment}

theorem unquoted_lines {plan : Plan} (hplan : catalog.plan options environment = .ok plan)
    (hnames : ∀ component ∈ catalog.enabled (environment.withDefaults options),
      Unquoted component.displayName) :
    ∀ line ∈ plan.lines, ∀ name ∈ line.names, Unquoted name := by
  intro line hline name hname
  obtain ⟨component, hcomponent, rfl⟩ := (planned hplan).exists_component_of_line hline name hname
  exact hnames component hcomponent

/-- If no component that takes part has a quotation mark in its name, plans have the same drawing exactly
if their steps agree in component, scope, primacy and laziness, one by one, and their edges in both ends
and in whether they are hard. -/
theorem drawings_eq_iff {other : Catalog} {otherOptions : Options} {otherEnvironment : Environment}
    {plan otherPlan : Plan} (hplan : catalog.plan options environment = .ok plan)
    (hother : other.plan otherOptions otherEnvironment = .ok otherPlan)
    (hnames : ∀ component ∈ catalog.enabled (environment.withDefaults options),
      Unquoted component.displayName)
    (hotherNames : ∀ component ∈ other.enabled (otherEnvironment.withDefaults otherOptions),
      Unquoted component.displayName) :
    plan.drawing = otherPlan.drawing
      ↔ plan.steps.map (fun step => (step.component, step.scope, step.primary, step.lazy))
          = otherPlan.steps.map (fun step => (step.component, step.scope, step.primary, step.lazy))
        ∧ plan.edges.map (fun edge => (edge.consumer, edge.provider, edge.kind.isHard))
          = otherPlan.edges.map (fun edge => (edge.consumer, edge.provider, edge.kind.isHard)) :=
  Plan.drawing_eq_iff (unquoted_lines hplan hnames) (unquoted_lines hother hotherNames)

theorem plan_of_ordered {activation : Activation} (hfaults : catalog.faults = [])
    (hactivate : catalog.activate (environment.withDefaults options) = .ok activation)
    (herrors : (activation.findings options.strict).errors = [])
    (hordered : (Graph.ofComponents activation.enabled).allNodes.Pairwise fun first second =>
      (Graph.ofComponents activation.enabled).ordered
        (Graph.ofComponents activation.enabled).levels first second = true) :
    catalog.plan options environment = .ok ((Graph.ofComponents activation.enabled).plan
      (Graph.ofComponents activation.enabled).allNodes (activation.findings options.strict)) := by
  refine plan_eq_ok_iff.mpr ⟨hfaults, activation, hactivate, herrors, ?_⟩
  rw [Graph.sorted, List.mergeSort_of_pairwise hordered]

end Catalog

/-- A source whose name looks like an attribute, and a sink with the text of an edge in its name that may
be bound to the source late. -/
def streamed (handover : Handover) : Catalog where
  components :=
    [{ qualifiedName := "Source", displayName := "a [shape=oval, style=filled];", lazy := true },
     { qualifiedName := "Sink", displayName := "a -> b;\n    c\\", declarationIndex := 1
       sites := [.constructor [{ requestedType := "Source", handover }]] }]
  ascending := by cases handover <;> decide

theorem streamed_drawn_differently :
    ∃ direct deferred, (streamed .direct).plan {} {} = .ok direct
      ∧ (streamed .deferred).plan {} {} = .ok deferred ∧ direct.drawing ≠ deferred.drawing := by
  have hdirect := @Catalog.plan_of_ordered (streamed .direct) {} {} _ (by decide) rfl
    (by decide +kernel) (by decide +kernel)
  have hdeferred := @Catalog.plan_of_ordered (streamed .deferred) {} {} _ (by decide) rfl
    (by decide +kernel) (by decide +kernel)
  refine ⟨_, _, hdirect, hdeferred, fun hdrawing => ?_⟩
  have hedges := ((Catalog.drawings_eq_iff hdirect hdeferred (by decide +kernel)
    (by decide +kernel)).mp hdrawing).2
  revert hedges
  decide +kernel

/-- A single component whose name holds what stands between the names of two lines. -/
def decoy : Catalog where
  components := [{ qualifiedName := "Decoy", displayName := "a\" [shape=box];\n    \"b" }]
  ascending := by decide

def couple : Catalog where
  components :=
    [{ qualifiedName := "First", displayName := "a" },
     { qualifiedName := "Second", displayName := "b", declarationIndex := 1 }]
  ascending := by decide

/-- Plans with one step and with two have the same drawing. -/
theorem decoy_drawn_as_couple :
    ∃ single double, decoy.plan {} {} = .ok single ∧ couple.plan {} {} = .ok double
      ∧ single.drawing = double.drawing
      ∧ single.steps.map (·.component) = ["a\" [shape=box];\n    \"b"]
      ∧ double.steps.map (·.component) = ["a", "b"] := by
  have hsingle := @Catalog.plan_of_ordered decoy {} {} _ (by decide) rfl (by decide +kernel)
    (by decide +kernel)
  have hdouble := @Catalog.plan_of_ordered couple {} {} _ (by decide) rfl (by decide +kernel)
    (by decide +kernel)
  exact ⟨_, _, hsingle, hdouble, by decide +kernel⟩

end Assembly
