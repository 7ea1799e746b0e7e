import Lakehouse.Settings

namespace Lakehouse

-- Reads what another node of the same pipeline writes.
structure NodeSource where
  nodeName : String
  asStream : Bool
  filter : Option String
  selects : Option (List String)
  deriving DecidableEq, Repr, Inhabited

def NodeSource.codec : Codec NodeSource :=
  .record
    (.cons (.required "node_name" .text) <|
     .cons (.default "as_stream" .flag false) <|
     .cons (.sparse "filter" .text) <|
     .cons (.sparse "selects" (.list .text)) .nil)
    (fun (nodeName, asStream, filter, selects, ()) => { nodeName, asStream, filter, selects })
    (fun s => (s.nodeName, s.asStream, s.filter, s.selects, ()))

structure TableSource where
  catalogName : Option String
  schemaName : Option String
  tableName : String
  warehouse : Warehouse
  asStream : Bool
  filter : Option String
  selects : Option (List String)
  deriving DecidableEq, Repr, Inhabited

-- Where the reads of a pipeline run: inside its engine, or in a job of their own.
inductive ReadContext where
  | engine
  | standalone
  deriving DecidableEq, Repr, Inhabited

namespace TableSource

def codec : Codec TableSource :=
  .record
    (.cons (.sparse "catalog_name" .text) <|
     .cons (.sparse "schema_name" .text) <|
     .cons (.required "table_name" .text) <|
     .cons (.default "warehouse" Warehouse.codec .databricks) <|
     .cons (.default "as_stream" .flag false) <|
     .cons (.sparse "filter" .text) <|
     .cons (.sparse "selects" (.list .text)) .nil)
    (fun (catalogName, schemaName, tableName, warehouse, asStream, filter, selects, ()) =>
      { catalogName, schemaName, tableName, warehouse, asStream, filter, selects })
    (fun s => (s.catalogName, s.schemaName, s.tableName, s.warehouse, s.asStream, s.filter,
      s.selects, ()))

-- Catalog, schema and table, as far as they are there.
def fullName (s : TableSource) : String :=
  ".".intercalate (s.catalogName.toList ++ s.schemaName.toList ++ [s.tableName])

-- The engine knows the tables that it makes itself by their bare names.
def readTarget (s : TableSource) (context : ReadContext) (internal : Bool) : String :=
  match context, internal with
  | .engine, true => s.tableName
  | _, _ => s.fullName

end TableSource

-- Raw event files of a producer.
structure EventSource where
  name : String
  producer : Option String
  eventsRoot : Option String
  format : Option String
  asStream : Bool
  deriving DecidableEq, Repr, Inhabited

namespace EventSource

def codec : Codec EventSource :=
  .record
    (.cons (.required "name" .text) <|
     .cons (.sparse "producer" .text) <|
     .cons (.sparse "events_root" .text) <|
     .cons (.sparse "format" .text) <|
     .cons (.default "as_stream" .flag false) .nil)
    (fun (name, producer, eventsRoot, format, asStream, ()) =>
      { name, producer, eventsRoot, format, asStream })
    (fun s => (s.name, s.producer, s.eventsRoot, s.format, s.asStream, ()))

-- The directory of the event's files.
def directory (settings : Settings) (s : EventSource) : String :=
  s.eventsRoot.getD (settings.landingRoot ++ "events/") ++
    (s.producer.map (· ++ "/")).getD "" ++ s.name ++ "/"

end EventSource

inductive DataSource where
  | node (s : NodeSource)
  | table (s : TableSource)
  | event (s : EventSource)
  deriving DecidableEq, Repr, Inhabited

namespace DataSource

-- A source has no mark of its kind: it is of the first kind that it fits. For that its scalars are
-- given their types first.
def codec : Codec DataSource where
  read x := do
    let x ← x.typed?
    (NodeSource.codec.read x).map node <|> (TableSource.codec.read x).map table <|>
      (EventSource.codec.read x).map event
  write
    | node s => NodeSource.codec.write s
    | table s => TableSource.codec.write s
    | event s => EventSource.codec.write s

end DataSource

inductive WriteMode where
  | append
  | overwrite
  | merge
  deriving DecidableEq, Repr, Inhabited

namespace WriteMode

def word : WriteMode → String
  | append => "APPEND"
  | overwrite => "OVERWRITE"
  | merge => "MERGE"

def codec : Codec WriteMode := .choice [append, overwrite, merge] word

end WriteMode

-- The table that a node writes.
structure TableSink where
  catalogName : Option String
  schemaName : Option String
  tableName : Option String
  mode : Option WriteMode
  mergeKeys : List String
  partitionBy : List String
  format : Option String
  writeOptions : Dict String
  deriving DecidableEq, Repr, Inhabited

namespace TableSink

def codec : Codec TableSink :=
  .record
    (.cons (.sparse "catalog_name" .text) <|
     .cons (.sparse "schema_name" .text) <|
     .cons (.sparse "table_name" .text) <|
     .cons (.sparse "mode" WriteMode.codec) <|
     .cons (.sparseList "merge_keys" .text) <|
     .cons (.sparseList "partition_by" .text) <|
     .cons (.sparse "format" .text) <|
     .cons (.sparseDict "write_options" .text) .nil)
    (fun (catalogName, schemaName, tableName, mode, mergeKeys, partitionBy, format, writeOptions,
        ()) =>
      { catalogName, schemaName, tableName, mode, mergeKeys, partitionBy, format, writeOptions })
    (fun s => (s.catalogName, s.schemaName, s.tableName, s.mode, s.mergeKeys, s.partitionBy,
      s.format, s.writeOptions, ()))

end TableSink

end Lakehouse
