import Lakehouse.Emission.Field
import Lakehouse.Text.Uppercase

namespace Lakehouse.Pulumi

def typeToken : Kind → String
  | .provider => "pulumi:providers:databricks"
  | .catalog => "databricks:Catalog"
  | .schema => "databricks:Schema"
  | .table => "databricks:SqlTable"
  | .volume => "databricks:Volume"
  | .grants => "databricks:Grants"
  | .notebook => "databricks:Notebook"
  | .workspaceFile => "databricks:WorkspaceFile"
  | .permissions => "databricks:Permissions"
  | .job => "databricks:Job"
  | .dltPipeline => "databricks:Pipeline"
  | .group => "databricks:Group"
  | .user => "databricks:User"
  | .servicePrincipal => "databricks:ServicePrincipal"
  | .groupMember => "databricks:GroupMember"
  | .userRole => "databricks:UserRole"
  | .servicePrincipalRole => "databricks:ServicePrincipalRole"
  | .warehouse => "databricks:SqlEndpoint"
  | .vectorSearchEndpoint => "databricks:VectorSearchEndpoint"

-- The characters after the first one: underscores go, and what follows them is in upper case.
def camelRest : Bool → List Char → List Char
  | _, [] => []
  | upper, c :: rest =>
    if c == '_' then camelRest true rest
    else if upper then Text.uppercase c ++ camelRest false rest
    else c :: camelRest false rest

-- `snake_case` as `camelCase`; an underscore in front stays.
def camelCase (key : String) : String :=
  match key.toList with
  | [] => ""
  | c :: rest => String.ofList (c :: camelRest false rest)

-- A native reference to a resource, or to an attribute of it.
def reference (p : Placeholder) : String :=
  match p.path with
  | some path => "$\x7b" ++ p.resource ++ "." ++ camelCase path ++ "\x7d"
  | none => "$\x7b" ++ p.resource ++ "\x7d"

def handle (id : String) : Value := .string (reference ⟨id, none⟩)

def properties (r : Resource) : Except EmitError Properties := do
  return Emission.adapt reference camelCase (← Emission.prepare r .pulumi)

def options (g : Graph) (r : Resource) : Properties :=
  let hints := g.orderingHints r.id
  r.provider.toList.map (fun id => ("provider", handle id)) ++
  (if hints.isEmpty then [] else [("dependsOn", .array (hints.map handle))]) ++
  (if r.kind != .provider && r.deleteBeforeReplace then [("deleteBeforeReplace", .bool true)] else []) ++
  (if r.deletionPolicy == .retain then [("retainOnDelete", .bool true)] else [])

-- A part of an entry that is left out when it is empty.
def part (key : String) (fields : Properties) : Properties :=
  if fields.isEmpty then [] else [(key, .object fields)]

def entry (g : Graph) (r : Resource) : Except EmitError Value := do
  return .object <|
    [("type", .string (typeToken r.kind))] ++ part "properties" (← properties r) ++
      part "options" (options g r)

def body (g : Graph) : Except EmitError Value := do
  let entries ← g.resources.mapM fun r => do return (r.id, ← entry g r)
  return .object <|
    [("name", .string g.name), ("runtime", .string "yaml")] ++
    g.description.toList.map (fun text => ("description", .string text)) ++
    [("config", .object g.config), ("variables", .object g.vars),
     ("resources", .object (Dict.ofEntries entries)), ("outputs", .object [])]

end Lakehouse.Pulumi
