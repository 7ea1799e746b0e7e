import Lakehouse.Expansion.Catalog
import Lakehouse.Expansion.Compute
import Lakehouse.Expansion.Identity
import Lakehouse.Expansion.Pipeline
import Lakehouse.Expansion.Workspace
import Lakehouse.Stack

namespace Lakehouse

-- A declaration that stands by itself in a section of the stack.
inductive Declaration where
  | group (d : Group)
  | user (d : User)
  | servicePrincipal (d : ServicePrincipal)
  | catalog (d : Catalog)
  | warehouse (d : SqlWarehouse)
  | vectorSearchEndpoint (d : VectorSearchEndpoint)
  | notebook (d : Notebook)
  | workspaceFile (d : WorkspaceFile)
  | pipeline (d : Pipeline)
  | job (d : Job)
  deriving Repr

def Declaration.expand (c : Context) : Declaration → Except CompileError (List Resource)
  | group d => d.expand c
  | user d => d.expand c
  | servicePrincipal d => d.expand c
  | catalog d => d.expand c
  | warehouse d => d.expand c
  | vectorSearchEndpoint d => d.expand c
  | notebook d => d.expand c
  | workspaceFile d => d.expand c
  | pipeline d => d.expand c
  | job d => d.expand c

def Sections.declarations (s : Sections) : List Declaration :=
  s.groups.map .group ++ s.users.map .user ++ s.servicePrincipals.map .servicePrincipal ++
    s.catalogs.map .catalog ++ s.warehouses.map .warehouse ++
    s.vectorSearchEndpoints.map .vectorSearchEndpoint ++ s.notebooks.map .notebook ++
    s.workspaceFiles.map .workspaceFile ++ s.pipelines.map .pipeline ++ s.jobs.map .job

structure Expansion where
  resources : List Resource
  pipelines : List NodeGraph
  deriving Repr, Inhabited

namespace Expansion

-- Ids end up in placeholders and in the addresses of documents.
def checkAddressable (id : String) : Except CompileError Unit :=
  if Ident.isAddressable id then .ok () else .error (.invalidDeclaration id .notAddressable)

def provider (settings : Settings) (name : String) (p : Provider) : Except CompileError Resource := do
  checkAddressable name
  return {
    id := name
    kind := .provider
    properties := p.arguments
    provider := none
    dependsOn := []
    owner := none
    deletionPolicy := .delete
    deleteBeforeReplace := settings.deleteBeforeReplace }

-- The resources of a declaration, with the node graph of a pipeline.
def ofDeclaration (c : Context) (d : Declaration) : Except CompileError Expansion := do
  let expansion ← match d with
    | .pipeline p => do
      let g ← p.graph c.settings
      .ok { resources := ← p.expandWith c g, pipelines := [g] }
    | d => do .ok { resources := ← d.expand c, pipelines := [] }
  expansion.resources.forM fun r => checkAddressable r.id
  return expansion

end Expansion

namespace Stack

def context (s : Stack) : Context := ⟨s.settings, s.defaultProvider⟩

def expand (s : Stack) : Except CompileError Expansion := do
  let providers ← s.providers.mapM fun (name, p) => Expansion.provider s.settings name p
  let parts ← s.resources.declarations.mapM (Expansion.ofDeclaration s.context)
  return {
    resources := providers ++ parts.flatMap (·.resources)
    pipelines := parts.flatMap (·.pipelines) }

end Stack

end Lakehouse
