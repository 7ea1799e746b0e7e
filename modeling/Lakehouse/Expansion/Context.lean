import Lakehouse.CompileError
import Lakehouse.Placeholder

namespace Lakehouse

structure Context where
  settings : Settings
  -- The provider of resources that name none.
  defaultProvider : Option String
  deriving DecidableEq, Repr, Inhabited

namespace Context

-- A resource with the options of its declaration.
def primary (c : Context) (id : String) (kind : Kind) (properties : Properties)
    (options : Options) : Resource where
  id
  kind
  properties
  provider := (options.provider.map Placeholder.normalize).or c.defaultProvider
  dependsOn := options.dependsOn.map Placeholder.normalize
  owner := none
  deletionPolicy := options.deletionPolicy
  deleteBeforeReplace := options.deleteBeforeReplace.getD c.settings.deleteBeforeReplace

end Context

namespace Declaration

-- Fields that only the author of a declaration uses.
def authoringKeys : List String := ["resource_name", "options"]

-- The properties of a written declaration: no authoring fields, and nothing that is null.
def strip (fields : Properties) : Properties :=
  (Dict.eraseAll fields authoringKeys).filter fun (_, v) => !v.isNull

-- The same for any value, which has to be a mapping.
def properties? (id : String) : Value → Except CompileError Properties
  | .object fields => .ok (strip fields)
  | _ => .error (.invalidDeclaration id .notAMapping)

-- The properties of a declaration without some more of its fields.
def properties {α : Type} (codec : Codec α) (declaration : α) (without : List String) : Properties :=
  Dict.eraseAll (strip (codec.properties declaration)) without

-- Leaves out lists and maps that are empty, under the given keys.
def dropEmpty (keys : List String) (properties : Properties) : Properties :=
  properties.filter fun (key, v) => !(keys.contains key && (v.isEmptyArray || v.isEmptyObject))

end Declaration

end Lakehouse
