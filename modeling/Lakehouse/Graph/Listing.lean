import Lakehouse.Graph

namespace Lakehouse

namespace Graph

def title (g : Graph) : String := s!"Graph: {g.name} ({g.resources.length} resources)"

-- A name with what comes before it.
def lineWith (label : String) (before : List String) : String :=
  if before.isEmpty then "  " ++ label else "  " ++ label ++ " <- " ++ ", ".intercalate before

def resourceLine (g : Graph) (r : Resource) : String :=
  lineWith s!"{r.id} [{r.kind.word}]" (g.dependencies r.id)

def pipelineLines (p : NodeGraph) : List String :=
  ["", s!"Pipeline: {p.name} ({p.mode.title})"] ++ p.nodes.map fun n => lineWith n.name n.feeders

-- The graph as a listing for people.
def listing (g : Graph) : List String :=
  [g.title, ""] ++ g.resources.map g.resourceLine ++ g.pipelines.flatMap pipelineLines ++
    ["", s!"Fingerprint: {g.fingerprint}"]

def summary (g : Graph) : String :=
  s!"OK: {g.name} ({g.resources.length} resources, {g.edges.length} edges, " ++
    s!"{g.pipelines.length} pipelines)"

end Graph

end Lakehouse
