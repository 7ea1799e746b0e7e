import Lakehouse.Declaration.Access
import Lakehouse.Settings

namespace Lakehouse

structure SqlWarehouse where
  name : String
  clusterSize : String
  autoStopMins : Option UInt32
  minNumClusters : Option UInt32
  maxNumClusters : Option UInt32
  serverless : Option Bool
  warehouseType : Option String
  channelName : Option String
  tags : Option Value
  accessControls : List AccessControl
  resourceName : Option String
  options : Options
  deriving Repr, Inhabited

namespace SqlWarehouse

-- The sizes that a workspace accepts.
def sizes : List String :=
  ["2X-Small", "X-Small", "Small", "Medium", "Large", "X-Large", "2X-Large", "3X-Large", "4X-Large"]

def codec : Codec SqlWarehouse :=
  .record
    (.cons (.required "name" .text) <|
     .cons (.required "cluster_size" .text) <|
     .cons (.optional "auto_stop_mins" .count) <|
     .cons (.optional "min_num_clusters" .count) <|
     .cons (.optional "max_num_clusters" .count) <|
     .cons (.optional "enable_serverless_compute" .flag) <|
     .cons (.optional "warehouse_type" .text) <|
     .cons (.optional "channel_name" .text) <|
     .cons (.optional "tags" .free) <|
     .cons AccessControl.field <|
     .cons (.optional "resource_name" .text) <|
     .cons Options.field .nil)
    (fun (name, clusterSize, autoStopMins, minNumClusters, maxNumClusters, serverless,
        warehouseType, channelName, tags, accessControls, resourceName, options, ()) =>
      { name, clusterSize, autoStopMins, minNumClusters, maxNumClusters, serverless,
        warehouseType, channelName, tags, accessControls, resourceName, options })
    (fun w => (w.name, w.clusterSize, w.autoStopMins, w.minNumClusters, w.maxNumClusters,
      w.serverless, w.warehouseType, w.channelName, w.tags, w.accessControls, w.resourceName,
      w.options, ()))

end SqlWarehouse

structure VectorSearchEndpoint where
  name : String
  endpointType : String
  resourceName : Option String
  options : Options
  deriving DecidableEq, Repr, Inhabited

def VectorSearchEndpoint.codec : Codec VectorSearchEndpoint :=
  .record
    (.cons (.required "name" .text) <|
     .cons (.default "endpoint_type" .text "STANDARD") <|
     .cons (.optional "resource_name" .text) <|
     .cons Options.field .nil)
    (fun (name, endpointType, resourceName, options, ()) =>
      { name, endpointType, resourceName, options })
    (fun v => (v.name, v.endpointType, v.resourceName, v.options, ()))

end Lakehouse
