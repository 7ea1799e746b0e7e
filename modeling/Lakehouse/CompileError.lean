import Lakehouse.Resource
import Lakehouse.Text.Quoted

namespace Lakehouse

-- How far a compilation has come.
inductive Stage where
  | unexpanded
  | expanded
  | dependenciesResolved
  | pipelineNodesResolved
  | emitted
  | failed
  deriving DecidableEq, Repr, Inhabited

namespace Stage

def all : List Stage :=
  [unexpanded, expanded, dependenciesResolved, pipelineNodesResolved, emitted, failed]

def word : Stage → String
  | unexpanded => "unexpanded"
  | expanded => "expanded"
  | dependenciesResolved => "dependencies_resolved"
  | pipelineNodesResolved => "pipeline_nodes_resolved"
  | emitted => "emitted"
  | failed => "failed"

-- The word in messages, with hyphens.
def text (s : Stage) : String := String.ofList (s.word.toList.map fun c => if c == '_' then '-' else c)

end Stage

-- What is wrong with a single declaration.
inductive Flaw where
  | notAMapping
  | notAddressable
  | emptyCatalogName
  | emptyGroupName
  | emptyUserName
  | emptyServicePrincipalName
  | emptyNodeName (position : Nat)
  | viewWithoutDefinition
  | externalVolumeWithoutLocation
  | unknownClusterSize (size : String)
  | clustersReversed (least greatest : UInt32)
  | unlocatedWorkspaceFile
  | emptyWorkspaceFile
  | emptyTaskKey
  | repeatedTaskKey (key : String)
  | unknownTask (task dependency : String)
  | unknownCluster (task cluster : String)
  | principalCount (position : Nat)
  | grantWithoutPrincipal (privileges : List String)
  deriving DecidableEq, Repr, Inhabited

def Flaw.message : Flaw → String
  | notAMapping => "declaration is not a mapping"
  | notAddressable => "resource id may only contain ASCII letters, digits, '_' and '-'"
  | emptyCatalogName => "catalog with empty name"
  | emptyGroupName => "group with empty display_name"
  | emptyUserName => "user with empty user_name"
  | emptyServicePrincipalName => "service principal with empty display_name"
  | emptyNodeName position => s!"node {position} has an empty name"
  | viewWithoutDefinition => "view without view_definition"
  | externalVolumeWithoutLocation => "external volume without storage_location"
  | unknownClusterSize size => s!"unknown cluster_size '{size}'"
  | clustersReversed least greatest =>
    s!"min_num_clusters {least.toNat} exceeds max_num_clusters {greatest.toNat}"
  | unlocatedWorkspaceFile => "workspace file needs a source, a path, or a resource_name"
  | emptyWorkspaceFile => "workspace file has no source or content"
  | emptyTaskKey => "task with empty task_key"
  | repeatedTaskKey key => s!"task_key '{key}' declared more than once"
  | unknownTask task dependency => s!"task '{task}' depends on unknown task '{dependency}'"
  | unknownCluster task cluster => s!"task '{task}' uses unknown cluster '{cluster}'"
  | principalCount position => s!"access_controls[{position}] must name exactly one principal"
  | grantWithoutPrincipal privileges =>
    s!"grant with privileges {Text.quotedList privileges} has no principal"

-- Why the sink of a node cannot be read by another one.
inductive SinkFlaw where
  | noSink
  | noTable
  | noSchema (table : String)
  deriving DecidableEq, Repr, Inhabited

def SinkFlaw.message : SinkFlaw → String
  | noSink => "node has no sink"
  | noTable => "sink has no table_name"
  | noSchema table => s!"sink '{table}' has no schema_name"

-- The graph that a cycle was found in.
inductive Network where
  | resources
  | pipeline (name : String)
  | tasks (job : String)
  deriving DecidableEq, Repr, Inhabited

def Network.text : Network → String
  | resources => "resources"
  | pipeline name => s!"pipeline '{name}'"
  | tasks job => s!"job '{job}' tasks"

inductive CompileError where
  | duplicateResource (id : String) (first second : Kind)
  | duplicateNode (pipeline node : String)
  | unresolvedReference (resource path target : String)
  | cyclicDependency (network : Network) (ids : List String)
  | unreadableSink (pipeline node : String) (flaw : SinkFlaw)
  | invalidDeclaration (resource : String) (flaw : Flaw)
  deriving DecidableEq, Repr, Inhabited

namespace CompileError

def message : CompileError → String
  | duplicateResource id first second =>
    s!"duplicate resource name '{id}' (declared as {first.word} and {second.word})"
  | duplicateNode pipeline node =>
    s!"pipeline '{pipeline}' declares node '{node}' more than once"
  | unresolvedReference resource path target =>
    s!"'{resource}' property '{path}' references unknown '{target}'"
  | cyclicDependency network ids =>
    s!"dependency cycle in {network.text} involving: " ++ ", ".intercalate ids
  | unreadableSink pipeline node flaw =>
    s!"pipeline '{pipeline}' node '{node}': cannot derive source: {flaw.message}"
  | invalidDeclaration resource flaw => s!"invalid declaration '{resource}': {flaw.message}"

-- The stage that was being entered.
def stage : CompileError → Stage
  | duplicateNode .. | unreadableSink .. | invalidDeclaration .. => .expanded
  | duplicateResource .. | unresolvedReference .. | cyclicDependency .. => .dependenciesResolved

end CompileError

end Lakehouse
