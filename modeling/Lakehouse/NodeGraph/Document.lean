import Lakehouse.NodeGraph

namespace Lakehouse

namespace ResolvedSource

-- A source with its fields, its type in front and where it is read from at the end.
def describe (context : ReadContext) (settings : Settings) : ResolvedSource → Value
  | event s =>
    .object <| [("type", .string "event")] ++ EventSource.codec.properties s ++
      [("dirpath", .string (s.directory settings))]
  | table s internal =>
    .object <| [("type", .string "table")] ++ TableSource.codec.properties s ++
      [("read_target", .string (s.readTarget context internal))]

end ResolvedSource

namespace NodeGraph

def joinDocument (g : NodeGraph) (j : ResolvedJoin) : Value :=
  .object [
    ("other", j.other.describe g.mode.readContext g.settings),
    ("on", .strings j.on),
    ("how", .string (j.how.getD "left"))]

-- An entry that is left out when there is nothing under it.
def entryOf (key : String) (v : Option Value) : Properties := v.toList.map (key, ·)

def nodeDocument (g : NodeGraph) (n : ResolvedNode) : Value :=
  .object <|
    [("name", .string n.name),
     ("upstream", .strings n.feeders),
     ("source", n.source.describe g.mode.readContext g.settings)] ++
    entryOf "joins" (if n.joins.isEmpty then none else some (.array (n.joins.map g.joinDocument))) ++
    entryOf "sink" (n.sink.map TableSink.codec.write) ++
    entryOf "layer" (n.layer.map .string) ++
    entryOf "transformer" n.transformer

-- The document that the runner notebooks read.
def document (g : NodeGraph) : Value :=
  .object [
    ("name", .string g.name),
    ("mode", .string g.mode.word),
    ("nodes", .array (g.nodes.map g.nodeDocument))]

def libraries (g : NodeGraph) : Value :=
  .array [.object [("notebook", .object [("path", .string g.settings.dltRunner)])]]

def taskKey (node : String) : String := "node-" ++ node

-- Every task runs the same notebook, for one node, after the tasks of the nodes that feed it.
def task (g : NodeGraph) (clusterKey : Option String) (n : ResolvedNode) : Task where
  key := taskKey n.name
  description := none
  dependsOns := n.feeders.map fun name => ⟨taskKey name⟩
  jobClusterKey := clusterKey
  existingClusterId := none
  notebookTask := some { path := g.settings.jobRunner, parameters := [("node_name", n.name)] }
  pipelineTask := none
  libraries := []
  timeoutSeconds := none
  maxRetries := none

def tasks (g : NodeGraph) (clusterKey : Option String) : List Task := g.nodes.map (g.task clusterKey)

end NodeGraph

end Lakehouse
