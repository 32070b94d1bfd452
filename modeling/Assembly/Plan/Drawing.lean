import Assembly.Plan.Basic

/-!
Plans as drawings in the language of Graphviz: a box for each singleton, an oval for each prototype, and
an arrow to each component that is needed, dashed unless it has to be constructed first. Names stand
between quotes as they are.
-/

namespace Assembly

def inQuotes (name : String) : String :=
  "\"" ++ name ++ "\""

namespace Step

def attributes (step : Step) : List String :=
  ["shape=" ++ (match step.scope with
      | .singleton => "box"
      | .prototype => "oval")]
    ++ (if step.primary then ["style=filled"] else [])
    ++ (if step.lazy then ["label=" ++ inQuotes (step.component ++ " (lazy)")] else [])

def drawing (step : Step) : String :=
  "    " ++ inQuotes step.component ++ " [" ++ ", ".intercalate step.attributes ++ "];\n"

end Step

def Edge.drawing (edge : Edge) : String :=
  "    " ++ inQuotes edge.consumer ++ " -> " ++ inQuotes edge.provider
    ++ (if edge.kind.isHard then "" else " [style=dashed]") ++ ";\n"

def Plan.drawing (plan : Plan) : String :=
  "digraph wiring \x7b\n" ++ String.join (plan.steps.map Step.drawing)
    ++ String.join (plan.edges.map Edge.drawing) ++ "\x7d\n"

end Assembly
