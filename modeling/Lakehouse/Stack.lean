import Lakehouse.Declaration.Catalog
import Lakehouse.Declaration.Compute
import Lakehouse.Declaration.Identity
import Lakehouse.Declaration.Pipeline
import Lakehouse.Declaration.Workspace

namespace Lakehouse

-- A target of deployment; all but the name of its plugin is passed through.
structure Provider where
  plugin : String
  arguments : Properties
  deriving Repr, Inhabited

namespace Provider

def defaultPlugin : String := "databricks"

def codec : Codec Provider :=
  .openRecord (.cons (.default "plugin" .text defaultPlugin) .nil)
    (fun (plugin, ()) arguments => { plugin, arguments }) (fun p => ((p.plugin, ()), p.arguments))

end Provider

-- Declarations by family, in the order in which families are expanded.
structure Sections where
  groups : List Group
  users : List User
  servicePrincipals : List ServicePrincipal
  catalogs : List Catalog
  warehouses : List SqlWarehouse
  vectorSearchEndpoints : List VectorSearchEndpoint
  notebooks : List Notebook
  workspaceFiles : List WorkspaceFile
  pipelines : List Pipeline
  jobs : List Job
  deriving Repr, Inhabited

namespace Sections

def codec : Codec Sections :=
  .record
    (.cons (.list "groups" Group.codec) <|
     .cons (.list "users" User.codec) <|
     .cons (.list "service_principals" ServicePrincipal.codec) <|
     .cons (.list "catalogs" Catalog.codec) <|
     .cons (.list "warehouses" SqlWarehouse.codec) <|
     .cons (.list "vector_search_endpoints" VectorSearchEndpoint.codec) <|
     .cons (.list "notebooks" Notebook.codec) <|
     .cons (.list "workspace_files" WorkspaceFile.codec) <|
     .cons (.list "pipelines" Pipeline.codec) <|
     .cons (.list "jobs" Job.codec) .nil)
    (fun (groups, users, servicePrincipals, catalogs, warehouses, vectorSearchEndpoints, notebooks,
        workspaceFiles, pipelines, jobs, ()) =>
      { groups, users, servicePrincipals, catalogs, warehouses, vectorSearchEndpoints, notebooks,
        workspaceFiles, pipelines, jobs })
    (fun s => (s.groups, s.users, s.servicePrincipals, s.catalogs, s.warehouses,
      s.vectorSearchEndpoints, s.notebooks, s.workspaceFiles, s.pipelines, s.jobs, ()))

-- How many declarations there are, nested ones not counted.
def size (s : Sections) : Nat :=
  s.groups.length + s.users.length + s.servicePrincipals.length + s.catalogs.length +
    s.warehouses.length + s.vectorSearchEndpoints.length + s.notebooks.length +
    s.workspaceFiles.length + s.pipelines.length + s.jobs.length

def isEmpty (s : Sections) : Bool := s.size == 0

end Sections

structure Stack where
  name : String
  description : Option String
  settings : Settings
  -- Passed through to the document.
  config : Properties
  vars : Properties
  providers : Dict Provider
  resources : Sections
  deriving Repr, Inhabited

namespace Stack

def codec : Codec Stack :=
  .record
    (.cons (.required "name" .text) <|
     .cons (.optional "description" .text) <|
     .cons (.default "settings" Settings.codec .initial) <|
     .cons (.dict "config" .free) <|
     .cons (.dict "variables" .free) <|
     .cons (.dict "providers" Provider.codec) <|
     .cons (.default "resources" Sections.codec default) .nil)
    (fun (name, description, settings, config, vars, providers, resources, ()) =>
      { name, description, settings, config, vars, providers, resources })
    (fun s => (s.name, s.description, s.settings, s.config, s.vars, s.providers, s.resources,
      ()))

-- The provider of declarations that name none: the one in the settings, else the first one.
def defaultProvider (s : Stack) : Option String :=
  s.settings.defaultProvider.or (s.providers.keys.head?)

end Stack

end Lakehouse
