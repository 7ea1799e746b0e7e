import Lakehouse.Stack

namespace Lakehouse

inductive Violation where
  | emptyName
  | missingSlash (field value : String)
  | unknownDefaultProvider (name : String)
  | unsupportedPlugin (provider plugin : String)
  | emptyPipelineName
  | emptyNodeName (pipeline : String) (position : Nat)
  | unknownClusterKey (pipeline key : String)
  | emptyJobName
  | emptyNotebookSource
  deriving DecidableEq, Repr, Inhabited

def Violation.message : Violation → String
  | emptyName => "name must not be empty"
  | missingSlash field value => s!"settings.{field} must end with '/', got '{value}'"
  | unknownDefaultProvider name => s!"settings.default_provider names unknown provider '{name}'"
  | unsupportedPlugin provider plugin => s!"provider '{provider}' uses unsupported plugin '{plugin}'"
  | emptyPipelineName => "pipeline with empty name"
  | emptyNodeName pipeline position => s!"pipeline '{pipeline}' node {position} has an empty name"
  | unknownClusterKey pipeline key =>
    s!"pipeline '{pipeline}' job_cluster_key '{key}' names no cluster"
  | emptyJobName => "job with empty name"
  | emptyNotebookSource => "notebook with empty source"

def Settings.violations (s : Settings) : List Violation :=
  [("workspace_root", s.workspaceRoot), ("landing_root", s.landingRoot)].filterMap
    fun (field, value) =>
      if value.toList.getLast? == some '/' then none else some (.missingSlash field value)

def Pipeline.violations (p : Pipeline) : List Violation :=
  (if p.name.isEmpty then [.emptyPipelineName] else []) ++
  (p.nodes.zipIdx.filterMap fun (n, i) =>
    if n.name.isEmpty then some (.emptyNodeName p.name i) else none) ++
  match p.orchestrator with
  | .job o =>
    (o.jobClusterKey.filter fun key => !o.clusters.any (·.name == key)).toList.map
      (.unknownClusterKey p.name)
  | .dlt _ => []

namespace Stack

def providerViolations (s : Stack) : List Violation :=
  (s.settings.defaultProvider.filter (!s.providers.contains ·)).toList.map .unknownDefaultProvider ++
  s.providers.filterMap fun (name, p) =>
    if p.plugin == Provider.defaultPlugin then none else some (.unsupportedPlugin name p.plugin)

-- All that is wrong with a stack by itself; nothing if it is valid.
def violations (s : Stack) : List Violation :=
  (if s.name.isEmpty then [.emptyName] else []) ++
  s.settings.violations ++
  s.providerViolations ++
  s.resources.pipelines.flatMap Pipeline.violations ++
  (s.resources.jobs.filter (·.name.isEmpty)).map (fun _ => .emptyJobName) ++
  (s.resources.notebooks.filter (·.source.isEmpty)).map fun _ => .emptyNotebookSource

end Stack

end Lakehouse
