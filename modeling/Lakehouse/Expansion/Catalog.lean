import Lakehouse.Declaration.Catalog
import Lakehouse.Expansion.Access
/-!
Resources of a catalog and of all that it holds. What is nested refers to what holds it by
placeholders, and so comes after it.
-/
namespace Lakehouse

namespace Expansion

-- What holds a nested declaration: its name, and the id of its resource.
structure Parent where
  name : String
  id : String

def Parent.reference (p : Parent) : Value := .string (Placeholder.attr p.id "name")

-- The tables and volumes of a schema name both of their parents.
def parentage (catalog schema : Parent) : Properties :=
  [("catalog_name", catalog.reference), ("schema_name", schema.reference)]

def withGrants (primary : Resource) (field attr : String) (gs : List Grant) :
    Except CompileError (List Resource) := do
  return primary :: (← grants primary field attr gs)

end Expansion

open Expansion

def Table.expand (c : Context) (catalog schema : Parent) (t : Table) :
    Except CompileError (List Resource) := do
  let id := Ident.derive t.resourceName "table" s!"{catalog.name}.{schema.name}.{t.name}"
  if t.tableType == some "VIEW" && t.viewDefinition.isNone then
    throw (.invalidDeclaration id .viewWithoutDefinition)
  let properties := Declaration.dropEmpty ["columns"] (Declaration.properties Table.codec t ["grants"])
  withGrants (c.primary id .table (properties ++ parentage catalog schema) t.options)
    "table" "id" t.grants

def Volume.expand (c : Context) (catalog schema : Parent) (v : Volume) :
    Except CompileError (List Resource) := do
  let id := Ident.derive v.resourceName "volume" s!"{catalog.name}.{schema.name}.{v.name}"
  if v.volumeType == "EXTERNAL" && v.storageLocation.isNone then
    throw (.invalidDeclaration id .externalVolumeWithoutLocation)
  let properties := Declaration.properties Volume.codec v ["grants"]
  withGrants (c.primary id .volume (properties ++ parentage catalog schema) v.options)
    "volume" "id" v.grants

def Schema.expand (c : Context) (catalog : Parent) (s : Schema) :
    Except CompileError (List Resource) := do
  let id := Ident.derive s.resourceName "schema" s!"{catalog.name}.{s.name}"
  let properties := Declaration.properties Schema.codec s ["grants", "tables", "volumes"]
  let primary := c.primary id .schema (properties ++ [("catalog_name", catalog.reference)]) s.options
  let own ← withGrants primary "schema" "id" s.grants
  let tables ← s.tables.mapM (Table.expand c catalog ⟨s.name, id⟩)
  let volumes ← s.volumes.mapM (Volume.expand c catalog ⟨s.name, id⟩)
  return own ++ tables.flatten ++ volumes.flatten

def Catalog.expand (c : Context) (cat : Catalog) : Except CompileError (List Resource) := do
  if cat.name.isEmpty then throw (.invalidDeclaration "catalog" .emptyCatalogName)
  let id := Ident.derive cat.resourceName "catalog" cat.name
  let properties := Declaration.properties Catalog.codec cat ["grants", "schemas"]
  let own ← withGrants (c.primary id .catalog properties cat.options) "catalog" "name" cat.grants
  let schemas ← cat.schemas.mapM (Schema.expand c ⟨cat.name, id⟩)
  return own ++ schemas.flatten

end Lakehouse
