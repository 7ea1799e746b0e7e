import Lakehouse.Emission.Field

namespace Lakehouse.Terraform

-- Providers are not resources.
def typeName? : Kind → Option String
  | .provider => none
  | .catalog => some "databricks_catalog"
  | .schema => some "databricks_schema"
  | .table => some "databricks_sql_table"
  | .volume => some "databricks_volume"
  | .grants => some "databricks_grants"
  | .notebook => some "databricks_notebook"
  | .workspaceFile => some "databricks_workspace_file"
  | .permissions => some "databricks_permissions"
  | .job => some "databricks_job"
  | .dltPipeline => some "databricks_pipeline"
  | .group => some "databricks_group"
  | .user => some "databricks_user"
  | .servicePrincipal => some "databricks_service_principal"
  | .groupMember => some "databricks_group_member"
  | .userRole => some "databricks_user_role"
  | .servicePrincipalRole => some "databricks_service_principal_role"
  | .warehouse => some "databricks_sql_endpoint"
  | .vectorSearchEndpoint => some "databricks_vector_search_endpoint"

-- Blocks that come once for each element are named in the singular.
def singulars : Dict String :=
  [("tasks", "task"), ("job_clusters", "job_cluster"), ("libraries", "library"),
   ("clusters", "cluster"), ("notifications", "notification"), ("parameters", "parameter"),
   ("depends_ons", "depends_on"), ("access_controls", "access_control"), ("grants", "grant"),
   ("columns", "column")]

def singular (key : String) : String := (singulars.get? key).getD key

-- The type of the last resource with an id, if there is one that is not a provider.
def typeOf? (g : Graph) (id : String) : Option String :=
  (g.resources.filterMap fun r => if r.id == id then typeName? r.kind else none).getLast?

-- The address of a resource; what is not a resource is a provider.
def address (g : Graph) (id : String) : String := (typeOf? g id).getD "databricks" ++ "." ++ id

-- A native reference; without an attribute it is to the id.
def reference (g : Graph) (p : Placeholder) : String :=
  "$\x7b" ++ address g p.resource ++ "." ++ p.path.getD "id" ++ "\x7d"

-- What a block says besides its properties.
def metaArguments (g : Graph) (r : Resource) : Properties :=
  let hints := g.orderingHints r.id
  r.provider.toList.map (fun id => ("provider", .string (address g id))) ++
  (if hints.isEmpty then [] else [("depends_on", .strings (hints.map (address g)))]) ++
  (if r.deletionPolicy == .retain then
    [("lifecycle", .object [("prevent_destroy", .bool true)])] else [])

def block (g : Graph) (r : Resource) : Except EmitError Value := do
  let properties := Emission.adapt (reference g) singular (← Emission.prepare r .terraform)
  return .object (Dict.insertAll properties (metaArguments g r))

-- A provider under its alias, with its arguments as they are.
def providerEntry (r : Resource) : Except EmitError Value := do
  return .object (Dict.insertAll [("alias", .string r.id)] (← Emission.prepare r .terraform))

-- Where an emitted resource goes: among the providers, or to its type and id.
inductive Placed where
  | provider (entry : Value)
  | resource (type id : String) (block : Value)

def place (g : Graph) (r : Resource) : Except EmitError Placed := do
  match typeName? r.kind with
  | none => return .provider (← providerEntry r)
  | some type => return .resource type r.id (← block g r)

def Placed.provider? : Placed → Option Value
  | provider entry => some entry
  | resource .. => none

-- Adds a block to those of its type.
def Placed.addTo (types : Dict Properties) : Placed → Dict Properties
  | provider _ => types
  | resource type id block => types.insert type (((types.get? type).getD []).insert id block)

def body (g : Graph) : Except EmitError Value := do
  let placed ← g.resources.mapM (place g)
  let providers := placed.filterMap Placed.provider?
  let types := placed.foldl Placed.addTo []
  let source := Value.object [("source", .string "databricks/databricks")]
  return .object <|
    [("terraform", .object [("required_providers", .object [("databricks", source)])])] ++
    (if g.vars.isEmpty then []
      else [("variable", .object (g.vars.mapValues fun v => .object [("default", v)]))]) ++
    (if providers.isEmpty then [] else [("provider", .object [("databricks", .array providers)])]) ++
    [("resource", .object (types.mapValues .object))]

end Lakehouse.Terraform
