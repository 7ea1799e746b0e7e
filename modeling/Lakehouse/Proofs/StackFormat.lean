import Lakehouse.Proofs.RoundTrip
import Lakehouse.Stack
/-!
The format of a stack. What is read of a stack is read again from what is written of it: every
declaration is a record of faithful fields, a source is never taken for one of an earlier kind, and an
orchestrator is found by its word.
-/
namespace Lakehouse

open List Attempt Codec

-- What is read of no entries at all is kept where it is left out.
theorem Codec.keeps_of_empty {α : Type} {c : Codec α} [c.Faithful] {a : α}
    (h : c.read (.ofValue (.object [])) = some a) : c.Keeps a :=
  Faithful.keeps h

instance : Warehouse.codec.Faithful :=
  choice_faithful (by decide)

instance {w : Warehouse} : Warehouse.codec.Keeps w where
  read_write := by
    cases w
    rfl

instance : Settings.codec.Faithful :=
  record_faithful (by decide) fun _ => rfl

instance : Settings.codec.Keeps .initial :=
  keeps_of_empty rfl

instance : DeletionPolicy.codec.Faithful :=
  choice_faithful (by decide)

instance : DeletionPolicy.codec.Keeps .delete :=
  ⟨rfl⟩

instance : Options.codec.Faithful :=
  record_faithful (by decide) fun _ => rfl

instance : Options.codec.Keeps .none :=
  keeps_of_empty rfl

instance : Options.field.Faithful :=
  inferInstanceAs (Field.default _ _ _).Faithful

instance : AccessControl.codec.Faithful :=
  record_faithful (by decide) fun _ => rfl

instance : AccessControl.field.Faithful :=
  inferInstanceAs (Field.list _ _).Faithful

instance : Grant.codec.Faithful :=
  record_faithful (by decide) fun _ => rfl

instance : Grant.field.Faithful :=
  inferInstanceAs (Field.list _ _).Faithful

instance : Group.codec.Faithful :=
  record_faithful (by decide) fun _ => rfl

instance : User.codec.Faithful :=
  record_faithful (by decide) fun _ => rfl

instance : ServicePrincipal.codec.Faithful :=
  record_faithful (by decide) fun _ => rfl

instance : Column.codec.Faithful :=
  record_faithful (by decide) fun _ => rfl

instance : Table.codec.Faithful :=
  record_faithful (by decide) fun _ => rfl

instance : Volume.codec.Faithful :=
  record_faithful (by decide) fun _ => rfl

instance : Schema.codec.Faithful :=
  record_faithful (by decide) fun _ => rfl

instance : Catalog.codec.Faithful :=
  record_faithful (by decide) fun _ => rfl

instance : SqlWarehouse.codec.Faithful :=
  record_faithful (by decide) fun _ => rfl

instance : VectorSearchEndpoint.codec.Faithful :=
  record_faithful (by decide) fun _ => rfl

instance : Notebook.codec.Faithful :=
  record_faithful (by decide) fun _ => rfl

instance : WorkspaceFile.codec.Faithful :=
  record_faithful (by decide) fun _ => rfl

instance : Cluster.codec.Faithful :=
  openRecord_faithful (by decide) fun _ _ => rfl

instance : TaskDependency.codec.Faithful :=
  record_faithful (by decide) fun _ => rfl

instance : NotebookTask.codec.Faithful :=
  record_faithful (by decide) fun _ => rfl

instance : NotebookTask.codec.Present :=
  record_present

instance : PipelineTask.codec.Faithful :=
  record_faithful (by decide) fun _ => rfl

instance : PipelineTask.codec.Present :=
  record_present

instance : PypiLibrary.codec.Faithful :=
  record_faithful (by decide) fun _ => rfl

instance : PypiLibrary.codec.Present :=
  record_present

instance : Library.codec.Faithful :=
  record_faithful (by decide) fun _ => rfl

instance : Task.codec.Faithful :=
  record_faithful (by decide) fun _ => rfl

instance : JobParameter.codec.Faithful :=
  record_faithful (by decide) fun _ => rfl

instance : Job.codec.Faithful :=
  record_faithful (by decide) fun _ => rfl

instance : NodeSource.codec.Faithful :=
  record_faithful (by decide) fun _ => rfl

instance : TableSource.codec.Faithful :=
  record_faithful (by decide) fun _ => rfl

instance : EventSource.codec.Faithful :=
  record_faithful (by decide) fun _ => rfl

namespace DataSource

theorem node_refuses_table {s : TableSource} :
    NodeSource.codec.read (.ofValue (TableSource.codec.write s)) = none :=
  record_refuses (by decide) (by decide) (by decide)

theorem node_refuses_event {s : EventSource} :
    NodeSource.codec.read (.ofValue (EventSource.codec.write s)) = none :=
  record_refuses (by decide) (by decide) (by decide)

theorem table_refuses_event {s : EventSource} :
    TableSource.codec.read (.ofValue (EventSource.codec.write s)) = none :=
  record_refuses (by decide) (by decide) (by decide)

theorem codec_read (v : Value) : codec.read (.ofValue v) =
    ((NodeSource.codec.read (.ofValue v)).map node <|>
      (TableSource.codec.read (.ofValue v)).map table <|>
        (EventSource.codec.read (.ofValue v)).map event) := by
  simp only [codec, Input.typed?_ofValue, Option.bind_eq_bind, Option.bind_some]

-- A source is read as one of the kind that it was written as.
theorem keeps_node {s : NodeSource} (h : NodeSource.codec.Keeps s) : codec.Keeps (node s) where
  read_write := by
    show codec.read (.ofValue (NodeSource.codec.write s)) = _
    rw [codec_read, h.read_write]
    rfl

theorem keeps_table {s : TableSource} (h : TableSource.codec.Keeps s) : codec.Keeps (table s) where
  read_write := by
    show codec.read (.ofValue (TableSource.codec.write s)) = _
    rw [codec_read, node_refuses_table, h.read_write]
    rfl

theorem keeps_event {s : EventSource} (h : EventSource.codec.Keeps s) : codec.Keeps (event s) where
  read_write := by
    show codec.read (.ofValue (EventSource.codec.write s)) = _
    rw [codec_read, node_refuses_event, table_refuses_event, h.read_write]
    rfl

instance : codec.Faithful where
  keeps {v s} h := by
    simp only [codec_read, Option.orElse_eq_orElse, Option.orElse_eq_or, Option.or_eq_some_iff,
      Option.map_eq_some_iff] at h
    rcases h with ⟨s, hs, rfl⟩ | ⟨_, ⟨s, hs, rfl⟩ | ⟨_, s, hs, rfl⟩⟩
    · exact keeps_node <| Faithful.keeps hs
    · exact keeps_table <| Faithful.keeps hs
    · exact keeps_event <| Faithful.keeps hs

end DataSource

instance : WriteMode.codec.Faithful :=
  choice_faithful (by decide)

instance : WriteMode.codec.Present :=
  inferInstanceAs (choice _ _).Present

instance : TableSink.codec.Faithful :=
  record_faithful (by decide) fun _ => rfl

instance : TableSink.codec.Present :=
  record_present

instance : Join.codec.Faithful :=
  record_faithful (by decide) fun _ => rfl

instance : PipelineNode.codec.Faithful :=
  record_faithful (by decide) fun _ => rfl

instance : DltOrchestrator.codec.Faithful :=
  record_faithful (by decide) fun _ => rfl

instance : JobOrchestrator.codec.Faithful :=
  record_faithful (by decide) fun _ => rfl

namespace Orchestrator

variable {v content : Value} {word : String} {o : Orchestrator}

-- The word of an object stands under `type`; all its other entries go with it.
theorem read?_object (fs : Properties) : read? (.ofValue (.object fs)) = (do
    let word ← Input.single? ((fs.mapValues Input.ofValue).filterMap
      fun (k, v) => if k == "type" then some v else none)
    readAs? (← (← word).text?) (.ofValue (.object (fs.erase "type")))) := by
  have hk : (Input.ofFields fs).mapM (fun e => do some (← e.1.typed?, e.2)) =
      some (Input.ofFields fs) := by
    rw [Input.ofFields_eq]
    exact mapM_some_self <| forall_mem_map.mpr fun _ _ => rfl
  have hw : (Input.ofFields fs).filterMap
        (fun e => if e.1.text? == some "type" then some e.2 else none) =
      (fs.mapValues Input.ofValue).filterMap fun (k, v) => if k == "type" then some v else none := by
    rw [Input.ofFields_eq, Dict.mapValues, filterMap_map, filterMap_map]
    exact filterMap_congr fun e _ => by simp [Input.text?]
  have ho : (Input.ofFields fs).filter (fun e => !(e.1.text? == some "type")) =
      Input.ofFields (fs.erase "type") := by
    rw [Input.ofFields_eq, Input.ofFields_eq, Dict.erase, filter_map]
    exact congrArg _ <| filter_congr fun e _ => by simp [Input.text?, bne]
  have hv : (Input.ofFields (fs.erase "type")).mapM (fun e => do some (e.1, ← e.2.typed?)) =
      some (Input.ofFields (fs.erase "type")) := by
    rw [Input.ofFields_eq]
    exact mapM_some_self <| forall_mem_map.mpr fun _ _ => by simp [Input.typed?_ofValue]
  simp only [Option.bind_eq_bind] at hk hv
  simp only [Input.ofValue, read?, hk, hw, ho, hv, Option.bind_eq_bind, Option.bind_some]

theorem read?_tagged {τ : Type} {fields : Fields τ} {t : τ} (hn : ("type" :: fields.names).Nodup) :
    read? (.ofValue (.object (("type", .string word) :: fields.write t))) =
      readAs? word (.ofValue (.object (fields.write t))) := by
  have hk : ("type" :: Dict.keys (fields.write t)).Nodup :=
    hn.sublist <| Fields.write_keys.cons_cons "type"
  have he : Dict.erase (("type", .string word) :: fields.write t) "type" = fields.write t := by
    rw [Dict.erase, filter_cons_of_neg (by simp), filter_eq_self]
    intro e he
    have hne : e.1 ≠ "type" := fun ht => (nodup_cons.mp hk).left <| ht ▸ mem_map_of_mem he
    simpa using hne
  rw [read?_object, Dict.single?_eq, Dict.get?_mapValues, Dict.get?_cons, he]
  · rfl
  · rwa [Dict.keys_mapValues]

-- The word and what goes with it stand in the value.
theorem read?_ofValue (h : read? (.ofValue v) = some o) :
    ∃ word content, readAs? word (.ofValue content) = some o := by
  cases v
  case object fs =>
    simp only [read?_object, Option.bind_eq_bind, Option.bind_eq_some_iff] at h
    obtain ⟨_, _, _, _, word, _, h⟩ := h
    exact ⟨word, _, h⟩
  case array vs =>
    cases vs
    case nil => cases h
    case cons w vs =>
      have hv : (Input.ofValues vs).mapM Input.typed? = some (Input.ofValues vs) := by
        rw [Input.ofValues_eq]
        exact mapM_some_self <| forall_mem_map.mpr fun v _ => Input.typed?_ofValue v
      simp only [Input.ofValue, Input.ofValues, read?, hv, Option.bind_eq_bind,
        Option.bind_eq_some_iff, Option.bind_some] at h
      obtain ⟨word, _, h⟩ := h
      exact ⟨word, .array vs, h⟩
  all_goals cases h

theorem keeps_dlt {d : DltOrchestrator} (h : DltOrchestrator.codec.Keeps d) : codec.Keeps (dlt d) :=
  ⟨(read?_tagged (by decide)).trans <| congrArg (Option.map dlt) h.read_write⟩

theorem keeps_job {j : JobOrchestrator} (h : JobOrchestrator.codec.Keeps j) : codec.Keeps (job j) :=
  ⟨(read?_tagged (by decide)).trans <| congrArg (Option.map job) h.read_write⟩

instance : codec.Faithful where
  keeps {v o} h := by
    have ⟨word, content, hc⟩ := read?_ofValue h
    rw [readAs?] at hc
    split at hc
    case isTrue =>
      obtain ⟨d, hd, rfl⟩ := Option.map_eq_some_iff.mp hc
      exact keeps_dlt <| Faithful.keeps hd
    case isFalse =>
      obtain ⟨_, j, hj, rfl⟩ : word = jobWord ∧ ∃ j, _ := by simpa using hc
      exact keeps_job <| Faithful.keeps hj

instance : codec.Keeps default :=
  keeps_dlt <| keeps_of_empty rfl

end Orchestrator

instance : Pipeline.codec.Faithful :=
  record_faithful (by decide) fun _ => rfl

instance : Provider.codec.Faithful :=
  openRecord_faithful (by decide) fun _ _ => rfl

instance : Sections.codec.Faithful :=
  record_faithful (by decide) fun _ => rfl

instance : Sections.codec.Keeps default :=
  keeps_of_empty rfl

instance : Stack.codec.Faithful :=
  record_faithful (by decide) fun _ => rfl

-- What is written of a stack is read as the stack again.
theorem Stack.codec_roundTrip {v : Value} {s : Stack} (h : codec.read (.ofValue v) = some s) :
    codec.read (.ofValue (codec.write s)) = some s :=
  Faithful.keeps h |>.read_write

-- A stack with a source of every kind, and with entries that are passed through.
def everySource : Value :=
  let provider : Value := .object [("host", .string "h"), ("plugin", .string "databricks")]
  let cluster : Value :=
    .object [("workers", .nat 2), ("name", .string "main"), ("spot", .bool true)]
  let node (name : String) (source : List (String × Value)) : Value :=
    .object [("name", .string name), ("source", .object source)]
  let pipeline : Value := .object [
    ("name", .string "p"),
    ("orchestrator",
      .object [("clusters", .array [cluster]), ("type", .string Orchestrator.jobWord)]),
    ("nodes", .array [
      node "raw" [("name", .string "trades")],
      node "clean" [("node_name", .string "raw")],
      node "prices" [("name", .string "x"), ("table_name", .string "t")]])]
  .object [
    ("name", .string "sources"),
    ("providers", .object [("databricks", provider)]),
    ("resources", .object [("pipelines", .array [pipeline])])]

theorem codec_roundTrip_everySource :
    let s := (Stack.codec.read (.ofValue everySource)).getD default
    Stack.codec.read (.ofValue everySource) = some s ∧
      Stack.codec.read (.ofValue (Stack.codec.write s)) = some s ∧
      (s.resources.pipelines.flatMap (·.nodes)).map (·.source) = [
        .event ⟨"trades", none, none, none, false⟩,
        .node ⟨"raw", false, none, none⟩,
        .table ⟨none, none, "t", .databricks, false, none, none⟩] := by
  intro s
  have hs : Stack.codec.read (.ofValue everySource) = some s :=
    (Option.some_get (by decide +kernel)).symm.trans <| congrArg some <| Option.get_eq_getD _
  exact ⟨hs, Stack.codec_roundTrip hs, by decide +kernel⟩

end Lakehouse
