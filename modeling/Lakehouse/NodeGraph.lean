import Lakehouse.CompileError
import Lakehouse.Declaration.Pipeline
import Lakehouse.Dependency.Distinct
import Lakehouse.Dependency.Order
/-!
The node graph of a pipeline: its nodes in the order in which they run, each with the tables and
events that it reads. A read of another node becomes a read of the table which that node writes.
-/
namespace Lakehouse

-- How a pipeline runs: as one long-running resource, or as one job task for each node.
inductive Mode where
  | continuous
  | discrete
  deriving DecidableEq, Repr, Inhabited

namespace Mode

def word : Mode → String
  | continuous => "continuous"
  | discrete => "discrete"

def title : Mode → String
  | continuous => "Continuous"
  | discrete => "Discrete"

def readContext : Mode → ReadContext
  | continuous => .engine
  | discrete => .standalone

end Mode

def Orchestrator.mode : Orchestrator → Mode
  | dlt _ => .continuous
  | job _ => .discrete

namespace TableSink

-- Catalog and schema are those of the pipeline where the sink names none.
def withDefaults (s : TableSink) (catalog schema : Option String) : TableSink :=
  { s with catalogName := s.catalogName.or catalog, schemaName := s.schemaName.or schema }

-- The source that reads the table of a sink: the table's name comes from the sink, the way of
-- reading from the reader. Nothing of the way of writing is left.
def asSource (s : TableSink) (reader : NodeSource) (warehouse : Warehouse) :
    Except SinkFlaw TableSource := do
  let table := s.tableName.getD ""
  if table.isEmpty then throw .noTable
  let schema := s.schemaName.getD ""
  if schema.isEmpty then throw (.noSchema table)
  return {
    catalogName := s.catalogName
    schemaName := some schema
    tableName := table
    warehouse
    asStream := reader.asStream
    filter := reader.filter
    selects := reader.selects }

end TableSink

inductive ResolvedSource where
  | event (s : EventSource)
  -- An internal table is made by a node of the same pipeline.
  | table (s : TableSource) (internal : Bool)
  deriving DecidableEq, Repr, Inhabited

structure ResolvedJoin where
  other : ResolvedSource
  on : List String
  how : Option String
  deriving DecidableEq, Repr, Inhabited

structure ResolvedNode where
  name : String
  -- Nodes that feed this one: by its source first, then by its joins.
  feeders : List String
  source : ResolvedSource
  joins : List ResolvedJoin
  sink : Option TableSink
  layer : Option String
  transformer : Option Value
  deriving Repr, Inhabited

structure NodeGraph where
  name : String
  mode : Mode
  nodes : List ResolvedNode
  settings : Settings
  deriving Repr, Inhabited

def PipelineNode.inputs (n : PipelineNode) : List (String × DataSource) :=
  ("source", n.source) :: n.joins.zipIdx.map fun (j, k) => (s!"joins[{k}].other", j.other)

-- The reads of other nodes, each with its path and the name that it gives.
def PipelineNode.reads (n : PipelineNode) : List (String × String) :=
  n.inputs.filterMap fun (path, source) =>
    match source with
    | .node s => some (path, s.nodeName)
    | _ => none

namespace Pipeline

-- Names have to be there and to differ; `seen` has those of the nodes before.
def checkNames (p : Pipeline) (seen : List String) : List PipelineNode → Except CompileError Unit
  | [] => .ok ()
  | n :: rest =>
    if n.name.isEmpty then .error (.invalidDeclaration p.name (.emptyNodeName seen.length))
    else if seen.contains n.name then .error (.duplicateNode p.name n.name)
    else p.checkNames (n.name :: seen) rest

def position? (p : Pipeline) (name : String) : Option Nat := p.nodes.findIdx? (·.name == name)

-- The names of the nodes at some places.
def names (p : Pipeline) (indices : List Nat) : List String :=
  indices.filterMap fun i => p.nodes[i]?.map (·.name)

-- The place of a node that the `i`th one reads; it may have to come before the reader.
def readTarget (p : Pipeline) (n : PipelineNode) (i : Nat) (path name : String) :
    Except CompileError Nat :=
  let unknown := CompileError.unresolvedReference p.name s!"nodes.{n.name}.{path}.node_name" name
  match p.position? name with
  | some j => if j ≤ i || p.allowForwardReferences then .ok j else .error unknown
  | none => .error unknown

def feeders (p : Pipeline) (n : PipelineNode) (i : Nat) : Except CompileError (List Nat) := do
  let targets ← n.reads.mapM fun (path, name) => p.readTarget n i path name
  return distinctBy id targets

-- The sink of a node, with the defaults of the pipeline.
def sink? (p : Pipeline) (n : PipelineNode) : Option TableSink :=
  n.sink.map (·.withDefaults p.catalog p.target)

def sourceOfNode (p : Pipeline) (settings : Settings) (s : NodeSource) :
    Except CompileError ResolvedSource :=
  let failed := CompileError.unreadableSink p.name s.nodeName
  match (p.nodes.find? (·.name == s.nodeName)).bind p.sink? with
  | none => .error (failed .noSink)
  | some sink =>
    match sink.asSource s settings.defaultWarehouse with
    | .ok source => .ok (.table source true)
    | .error flaw => .error (failed flaw)

def resolveSource (p : Pipeline) (settings : Settings) : DataSource →
    Except CompileError ResolvedSource
  | .event s => .ok (.event s)
  | .table s => .ok (.table s false)
  | .node s => p.sourceOfNode settings s

def resolveNode (p : Pipeline) (settings : Settings) (n : PipelineNode) (feeders : List Nat) :
    Except CompileError ResolvedNode := do
  let joins ← n.joins.mapM fun j => do
    return { other := ← p.resolveSource settings j.other, on := j.on, how := j.how : ResolvedJoin }
  let source ← p.resolveSource settings n.source
  return {
    name := n.name
    feeders := p.names feeders
    source
    joins
    sink := p.sink? n
    layer := n.layer
    transformer := n.transformer }

-- The order in which nodes can run.
def nodeOrder (p : Pipeline) (feeders : List (List Nat)) : Except CompileError (List Nat) :=
  let pairs := feeders.zipIdx.flatMap fun (targets, i) => targets.map fun j => (i, j)
  match Order.sort p.nodes.length pairs with
  | .ok order => .ok order
  | .error cycle => .error (.cyclicDependency (.pipeline p.name) (p.names cycle))

def graph (p : Pipeline) (settings : Settings) : Except CompileError NodeGraph := do
  p.checkNames [] p.nodes
  let feeders ← p.nodes.zipIdx.mapM fun (n, i) => p.feeders n i
  let order ← p.nodeOrder feeders
  let inOrder := order.filterMap fun i => do some (← p.nodes[i]?, ← feeders[i]?)
  let nodes ← inOrder.mapM fun (n, targets) => p.resolveNode settings n targets
  return { name := p.name, mode := p.orchestrator.mode, nodes, settings }

end Pipeline

namespace NodeGraph

def node? (g : NodeGraph) (name : String) : Option ResolvedNode := g.nodes.find? (·.name == name)

end NodeGraph

end Lakehouse
