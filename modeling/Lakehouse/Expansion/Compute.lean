import Lakehouse.Declaration.Compute
import Lakehouse.Expansion.Access

namespace Lakehouse

namespace SqlWarehouse

-- The first thing that is wrong with a warehouse.
def flaw? (w : SqlWarehouse) : Option Flaw :=
  if !sizes.contains w.clusterSize then some (.unknownClusterSize w.clusterSize)
  else match w.minNumClusters, w.maxNumClusters with
    | some least, some greatest =>
      if greatest < least then some (.clustersReversed least greatest) else none
    | _, _ => none

def expand (c : Context) (w : SqlWarehouse) : Except CompileError (List Resource) := do
  let id := Ident.derive w.resourceName "warehouse" w.name
  if let some flaw := w.flaw? then throw (.invalidDeclaration id flaw)
  let properties := Declaration.properties codec w ["access_controls"]
  let primary := c.primary id .warehouse properties w.options
  return primary :: (← Expansion.permissions primary "sql_endpoint_id" "id" w.accessControls)

end SqlWarehouse

def VectorSearchEndpoint.expand (c : Context) (v : VectorSearchEndpoint) :
    Except CompileError (List Resource) :=
  let id := Ident.derive v.resourceName "vector-search-endpoint" v.name
  .ok [c.primary id .vectorSearchEndpoint (Declaration.properties VectorSearchEndpoint.codec v [])
    v.options]

end Lakehouse
