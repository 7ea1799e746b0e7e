import Lakehouse.Declaration.Job
import Lakehouse.Declaration.Source

namespace Lakehouse

-- A further source that is joined into a node.
structure Join where
  other : DataSource
  on : List String
  how : Option String
  deriving DecidableEq, Repr, Inhabited

def Join.codec : Codec Join :=
  .record
    (.cons (.required "other" DataSource.codec) <|
     .cons (.list "on" .text) <|
     .cons (.optional "how" .text) .nil)
    (fun (other, on, how, ()) => { other, on, how })
    (fun j => (j.other, j.on, j.how, ()))

structure PipelineNode where
  name : String
  source : DataSource
  joins : List Join
  sink : Option TableSink
  layer : Option String
  -- Passed through to the runner.
  transformer : Option Value
  deriving Repr, Inhabited

def PipelineNode.codec : Codec PipelineNode :=
  .record
    (.cons (.required "name" .text) <|
     .cons (.required "source" DataSource.codec) <|
     .cons (.list "joins" Join.codec) <|
     .cons (.optional "sink" TableSink.codec) <|
     .cons (.optional "layer" .text) <|
     .cons (.optional "transformer" .free) .nil)
    (fun (name, source, joins, sink, layer, transformer, ()) =>
      { name, source, joins, sink, layer, transformer })
    (fun n => (n.name, n.source, n.joins, n.sink, n.layer, n.transformer, ()))

-- A continuous pipeline.
structure DltOrchestrator where
  channel : Option String
  development : Option Bool
  continuous : Option Bool
  photon : Option Bool
  serverless : Option Bool
  edition : Option String
  clusters : List Value
  configuration : Dict String
  notifications : List Value
  deriving Repr, Inhabited

def DltOrchestrator.codec : Codec DltOrchestrator :=
  .record
    (.cons (.optional "channel" .text) <|
     .cons (.optional "development" .flag) <|
     .cons (.optional "continuous" .flag) <|
     .cons (.optional "photon" .flag) <|
     .cons (.optional "serverless" .flag) <|
     .cons (.optional "edition" .text) <|
     .cons (.list "clusters" .free) <|
     .cons (.dict "configuration" .text) <|
     .cons (.list "notifications" .free) .nil)
    (fun (channel, development, continuous, photon, serverless, edition, clusters, configuration,
        notifications, ()) =>
      { channel, development, continuous, photon, serverless, edition, clusters, configuration,
        notifications })
    (fun o => (o.channel, o.development, o.continuous, o.photon, o.serverless, o.edition,
      o.clusters, o.configuration, o.notifications, ()))

-- A job with one task for each node.
structure JobOrchestrator where
  name : Option String
  clusters : List Cluster
  jobClusterKey : Option String
  accessControls : List AccessControl
  tags : Dict String
  schedule : Option Value
  maxConcurrentRuns : Option UInt32
  deriving Repr, Inhabited

namespace JobOrchestrator

def codec : Codec JobOrchestrator :=
  .record
    (.cons (.optional "name" .text) <|
     .cons (.list "clusters" Cluster.codec) <|
     .cons (.optional "job_cluster_key" .text) <|
     .cons AccessControl.field <|
     .cons (.dict "tags" .text) <|
     .cons (.optional "schedule" .free) <|
     .cons (.optional "max_concurrent_runs" .count) .nil)
    (fun (name, clusters, jobClusterKey, accessControls, tags, schedule, maxConcurrentRuns, ()) =>
      { name, clusters, jobClusterKey, accessControls, tags, schedule, maxConcurrentRuns })
    (fun o => (o.name, o.clusters, o.jobClusterKey, o.accessControls, o.tags, o.schedule,
      o.maxConcurrentRuns, ()))

-- The cluster of every task: the one that is named, else the first one.
def clusterKey? (o : JobOrchestrator) : Option String :=
  match o.jobClusterKey with
  | some key => some key
  | none => o.clusters.head?.map (·.name)

end JobOrchestrator

inductive Orchestrator where
  | dlt (o : DltOrchestrator)
  | job (o : JobOrchestrator)
  deriving Repr

namespace Orchestrator

instance : Inhabited Orchestrator := ⟨dlt default⟩

-- The word that tells the kinds apart.
def dltWord : String := "DLT"
def jobWord : String := "DATABRICKS_JOB"

def readAs? (word : String) (content : Input) : Option Orchestrator :=
  if word == dltWord then (DltOrchestrator.codec.read content).map dlt
  else if word == jobWord then (JobOrchestrator.codec.read content).map job
  else none

-- The word stands under `type`, or first in a list. What goes with it is given its types before it
-- is read.
def read? : Input → Option Orchestrator
  | .map entries => do
    let entries ← entries.mapM fun (key, v) => do some (← key.typed?, v)
    let isWord : Input → Bool := fun key => key.text? == some "type"
    let word ← Input.single? (entries.filterMap fun (key, v) => if isWord key then some v else none)
    let others := entries.filter fun (key, _) => !isWord key
    readAs? (← (← word).text?) (.map (← others.mapM fun (key, v) => do some (key, ← v.typed?)))
  | .list _ (word :: fields) => do
    readAs? (← word.text?) (.list true (← fields.mapM Input.typed?))
  | _ => none

def write : Orchestrator → Value
  | dlt o => tagged dltWord (DltOrchestrator.codec.write o)
  | job o => tagged jobWord (JobOrchestrator.codec.write o)
where
  tagged (word : String) : Value → Value
    | .object fields => .object (("type", .string word) :: fields)
    | v => v

def codec : Codec Orchestrator := ⟨read?, write⟩

end Orchestrator

structure Pipeline where
  name : String
  orchestrator : Orchestrator
  -- Catalog and schema of sinks that name none.
  catalog : Option String
  target : Option String
  nodes : List PipelineNode
  accessControls : List AccessControl
  -- Whether a node may read from one that is declared after it.
  allowForwardReferences : Bool
  resourceName : Option String
  options : Options
  deriving Repr, Inhabited

namespace Pipeline

def codec : Codec Pipeline :=
  .record
    (.cons (.required "name" .text) <|
     .cons (.default "orchestrator" Orchestrator.codec default) <|
     .cons (.optional "catalog" .text) <|
     .cons (.optional "target" .text) <|
     .cons (.list "nodes" PipelineNode.codec) <|
     .cons AccessControl.field <|
     .cons (.default "allow_forward_references" .flag true) <|
     .cons (.optional "resource_name" .text) <|
     .cons Options.field .nil)
    (fun (name, orchestrator, catalog, target, nodes, accessControls, allowForwardReferences,
        resourceName, options, ()) =>
      { name, orchestrator, catalog, target, nodes, accessControls, allowForwardReferences,
        resourceName, options })
    (fun p => (p.name, p.orchestrator, p.catalog, p.target, p.nodes, p.accessControls,
      p.allowForwardReferences, p.resourceName, p.options, ()))

end Pipeline

end Lakehouse
