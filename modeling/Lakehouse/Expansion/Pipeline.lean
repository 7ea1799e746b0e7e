import Lakehouse.Expansion.Job
import Lakehouse.Json.Printer
import Lakehouse.NodeGraph.Document
import Lakehouse.Text.Base64
/-!
Resources of a pipeline. Whatever runs it, its configuration document goes to the workspace as a file,
from where the notebooks of the runner read it.
-/
namespace Lakehouse.Pipeline

def id (p : Pipeline) : String :=
  let stem := match p.orchestrator with
    | .dlt _ => "dlt-pipeline"
    | .job _ => "job"
  Ident.derive p.resourceName stem p.name

-- Where the configuration document is put.
def configPath (c : Context) (p : Pipeline) : String :=
  s!"{c.settings.workspaceRoot}pipelines/{p.name}.json"

def configId (c : Context) (p : Pipeline) : String :=
  Ident.derive none "workspace-file" (p.configPath c)

-- The placeholder by which the runner finds the document.
def configReference (c : Context) (p : Pipeline) : String :=
  Placeholder.attr (p.configId c) "path"

def dltConfiguration (c : Context) (p : Pipeline) (o : DltOrchestrator) : Dict String :=
  (Dict.insert o.configuration "pipeline_name" p.name).insert "config_filepath" (p.configReference c)

-- The name comes first, then the orchestrator's own fields.
def dltProperties (c : Context) (p : Pipeline) (g : NodeGraph) (o : DltOrchestrator) : Properties :=
  let own := Declaration.properties DltOrchestrator.codec o []
  let configuration := Codec.text.dict.write (p.dltConfiguration c o)
  let properties := own ++ NodeGraph.entryOf "catalog" (p.catalog.map .string) ++
    NodeGraph.entryOf "target" (p.target.map .string)
  let properties := (Dict.insert properties "configuration" configuration).insert "libraries" g.libraries
  ("name", .string p.name) :: Declaration.dropEmpty ["clusters", "notifications"] properties

def dltResources (c : Context) (p : Pipeline) (g : NodeGraph) (o : DltOrchestrator) :
    Except CompileError (List Resource) := do
  let primary := c.primary p.id .dltPipeline (p.dltProperties c g o) p.options
  return primary :: (← Expansion.permissions primary "pipeline_id" "id" p.accessControls)

-- The job that runs the nodes as tasks.
def job (c : Context) (p : Pipeline) (g : NodeGraph) (o : JobOrchestrator) : Job where
  name := o.name.getD ("job-" ++ p.name)
  clusters := o.clusters
  tasks := g.tasks o.clusterKey?
  parameters := [
    ⟨"pipeline_name", p.name⟩, ⟨"full_refresh", "false"⟩, ⟨"config_filepath", p.configReference c⟩]
  tags := o.tags
  schedule := o.schedule
  maxConcurrentRuns := o.maxConcurrentRuns
  emailNotifications := none
  accessControls := p.accessControls ++ o.accessControls
  resourceName := some p.id
  options := p.options

-- The file follows the provider of the pipeline, and none of its other options.
def configFile (c : Context) (p : Pipeline) (g : NodeGraph) : Except CompileError (List Resource) := do
  let properties : Properties := [
    ("path", .string (p.configPath c)),
    ("content_base64", .string (Text.Base64.encode (Json.pretty g.document)))]
  let options := { Options.none with provider := p.options.provider }
  let file := c.primary (p.configId c) .workspaceFile properties options
  let readers := p.accessControls.map (·.withLevel "CAN_READ")
  return file :: (← Expansion.permissions file "workspace_file_path" "path" readers)

-- The primary resource, its permissions, the configuration file and its permissions.
def expandWith (c : Context) (p : Pipeline) (g : NodeGraph) : Except CompileError (List Resource) := do
  let own ← match p.orchestrator with
    | .dlt o => p.dltResources c g o
    | .job o => (p.job c g o).expand c
  return own ++ (← p.configFile c g)

def expand (c : Context) (p : Pipeline) : Except CompileError (List Resource) := do
  p.expandWith c (← p.graph c.settings)

end Lakehouse.Pipeline
