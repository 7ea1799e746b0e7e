import Lakehouse.Settings

namespace Lakehouse

inductive Kind where
  | provider
  | catalog
  | schema
  | table
  | volume
  | grants
  | notebook
  | workspaceFile
  | permissions
  | job
  | dltPipeline
  | group
  | user
  | servicePrincipal
  | groupMember
  | userRole
  | servicePrincipalRole
  | warehouse
  | vectorSearchEndpoint
  deriving DecidableEq, Repr, Inhabited

namespace Kind

def all : List Kind :=
  [provider, catalog, schema, table, volume, grants, notebook, workspaceFile, permissions, job,
   dltPipeline, group, user, servicePrincipal, groupMember, userRole, servicePrincipalRole,
   warehouse, vectorSearchEndpoint]

def word : Kind → String
  | provider => "provider"
  | catalog => "catalog"
  | schema => "schema"
  | table => "table"
  | volume => "volume"
  | grants => "grants"
  | notebook => "notebook"
  | workspaceFile => "workspace_file"
  | permissions => "permissions"
  | job => "job"
  | dltPipeline => "dlt_pipeline"
  | group => "group"
  | user => "user"
  | servicePrincipal => "service_principal"
  | groupMember => "group_member"
  | userRole => "user_role"
  | servicePrincipalRole => "service_principal_role"
  | warehouse => "warehouse"
  | vectorSearchEndpoint => "vector_search_endpoint"

def codec : Codec Kind := .choice all word

end Kind

structure Resource where
  id : String
  kind : Kind
  -- Texts among them may hold placeholders.
  properties : Properties
  provider : Option String
  dependsOn : List String
  -- The primary resource of an auxiliary one.
  owner : Option String
  deletionPolicy : DeletionPolicy
  deleteBeforeReplace : Bool
  deriving Repr, Inhabited

namespace Resource

def codec : Codec Resource :=
  .record
    (.cons (.required "id" .text) <|
     .cons (.required "kind" Kind.codec) <|
     .cons (.dict "properties" .free) <|
     .cons (.optional "provider_ref" .text) <|
     .cons (.list "depends_on" .text) <|
     .cons (.optional "owner" .text) <|
     .cons (.default "deletion_policy" DeletionPolicy.codec .delete) <|
     .cons (.default "delete_before_replace" .flag false) .nil)
    (fun (id, kind, properties, provider, dependsOn, owner, deletionPolicy, deleteBeforeReplace,
        ()) =>
      { id, kind, properties, provider, dependsOn, owner, deletionPolicy, deleteBeforeReplace })
    (fun r => (r.id, r.kind, r.properties, r.provider, r.dependsOn, r.owner, r.deletionPolicy,
      r.deleteBeforeReplace, ()))

-- A resource bound to another one, whose provider and replacement order it shares.
def auxiliary (id : String) (kind : Kind) (properties : Properties) (owner : Resource) :
    Resource where
  id
  kind
  properties
  provider := owner.provider
  dependsOn := []
  owner := some owner.id
  deletionPolicy := .delete
  deleteBeforeReplace := owner.deleteBeforeReplace

def isAuxiliary (r : Resource) : Bool := r.owner.isSome

-- A property that is a text.
def text? (r : Resource) (key : String) : Option String := do (← r.properties.get? key).string?

end Resource

end Lakehouse
