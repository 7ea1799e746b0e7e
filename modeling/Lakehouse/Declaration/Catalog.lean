import Lakehouse.Declaration.Access
import Lakehouse.Settings

namespace Lakehouse

structure Column where
  name : String
  type : String
  comment : Option String
  nullable : Option Bool
  deriving DecidableEq, Repr, Inhabited

def Column.codec : Codec Column :=
  .record
    (.cons (.required "name" .text) <|
     .cons (.required "type" .text) <|
     .cons (.sparse "comment" .text) <|
     .cons (.sparse "nullable" .flag) .nil)
    (fun (name, type, comment, nullable, ()) => { name, type, comment, nullable })
    (fun c => (c.name, c.type, c.comment, c.nullable, ()))

structure Table where
  name : String
  tableType : Option String
  dataSourceFormat : Option String
  columns : List Column
  comment : Option String
  viewDefinition : Option String
  storageLocation : Option String
  grants : List Grant
  resourceName : Option String
  options : Options
  deriving DecidableEq, Repr, Inhabited

def Table.codec : Codec Table :=
  .record
    (.cons (.required "name" .text) <|
     .cons (.optional "table_type" .text) <|
     .cons (.optional "data_source_format" .text) <|
     .cons (.list "columns" Column.codec) <|
     .cons (.optional "comment" .text) <|
     .cons (.optional "view_definition" .text) <|
     .cons (.optional "storage_location" .text) <|
     .cons Grant.field <|
     .cons (.optional "resource_name" .text) <|
     .cons Options.field .nil)
    (fun (name, tableType, dataSourceFormat, columns, comment, viewDefinition, storageLocation,
        grants, resourceName, options, ()) =>
      { name, tableType, dataSourceFormat, columns, comment, viewDefinition, storageLocation,
        grants, resourceName, options })
    (fun t => (t.name, t.tableType, t.dataSourceFormat, t.columns, t.comment, t.viewDefinition,
      t.storageLocation, t.grants, t.resourceName, t.options, ()))

structure Volume where
  name : String
  volumeType : String
  storageLocation : Option String
  comment : Option String
  grants : List Grant
  resourceName : Option String
  options : Options
  deriving DecidableEq, Repr, Inhabited

def Volume.codec : Codec Volume :=
  .record
    (.cons (.required "name" .text) <|
     .cons (.default "volume_type" .text "MANAGED") <|
     .cons (.optional "storage_location" .text) <|
     .cons (.optional "comment" .text) <|
     .cons Grant.field <|
     .cons (.optional "resource_name" .text) <|
     .cons Options.field .nil)
    (fun (name, volumeType, storageLocation, comment, grants, resourceName, options, ()) =>
      { name, volumeType, storageLocation, comment, grants, resourceName, options })
    (fun v => (v.name, v.volumeType, v.storageLocation, v.comment, v.grants, v.resourceName,
      v.options, ()))

structure Schema where
  name : String
  comment : Option String
  forceDestroy : Option Bool
  grants : List Grant
  tables : List Table
  volumes : List Volume
  resourceName : Option String
  options : Options
  deriving DecidableEq, Repr, Inhabited

def Schema.codec : Codec Schema :=
  .record
    (.cons (.required "name" .text) <|
     .cons (.optional "comment" .text) <|
     .cons (.optional "force_destroy" .flag) <|
     .cons Grant.field <|
     .cons (.list "tables" Table.codec) <|
     .cons (.list "volumes" Volume.codec) <|
     .cons (.optional "resource_name" .text) <|
     .cons Options.field .nil)
    (fun (name, comment, forceDestroy, grants, tables, volumes, resourceName, options, ()) =>
      { name, comment, forceDestroy, grants, tables, volumes, resourceName, options })
    (fun s => (s.name, s.comment, s.forceDestroy, s.grants, s.tables, s.volumes, s.resourceName,
      s.options, ()))

structure Catalog where
  name : String
  comment : Option String
  isolationMode : Option String
  storageRoot : Option String
  forceDestroy : Option Bool
  grants : List Grant
  schemas : List Schema
  resourceName : Option String
  options : Options
  deriving DecidableEq, Repr, Inhabited

def Catalog.codec : Codec Catalog :=
  .record
    (.cons (.required "name" .text) <|
     .cons (.optional "comment" .text) <|
     .cons (.optional "isolation_mode" .text) <|
     .cons (.optional "storage_root" .text) <|
     .cons (.optional "force_destroy" .flag) <|
     .cons Grant.field <|
     .cons (.list "schemas" Schema.codec) <|
     .cons (.optional "resource_name" .text) <|
     .cons Options.field .nil)
    (fun (name, comment, isolationMode, storageRoot, forceDestroy, grants, schemas, resourceName,
        options, ()) =>
      { name, comment, isolationMode, storageRoot, forceDestroy, grants, schemas, resourceName,
        options })
    (fun c => (c.name, c.comment, c.isolationMode, c.storageRoot, c.forceDestroy, c.grants,
      c.schemas, c.resourceName, c.options, ()))

end Lakehouse
