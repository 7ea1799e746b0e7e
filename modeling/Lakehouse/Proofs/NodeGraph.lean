import Lakehouse.NodeGraph
import Lakehouse.Proofs.Attempt
import Lakehouse.Proofs.Distinct
import Lakehouse.Proofs.NamedOrder

namespace Lakehouse

open List Attempt

variable {p : Pipeline} {settings : Settings} {g : NodeGraph} {n : PipelineNode}
variable {sink : TableSink} {reader : NodeSource} {warehouse : Warehouse} {i : Nat}

namespace TableSink

-- The table of the sink has a name and a schema.
structure Readable (s : TableSink) : Prop where
  table  : ∃ table, s.tableName = some table ∧ table ≠ ""
  schema : ∃ schema, s.schemaName = some schema ∧ schema ≠ ""

-- The source reads the table of the sink in the way of the reader.
structure ReadBy (s : TableSink) (reader : NodeSource) (warehouse : Warehouse) (t : TableSource) :
    Prop where
  catalog   : t.catalogName = s.catalogName
  schema    : t.schemaName = s.schemaName
  table     : some t.tableName = s.tableName
  warehouse : t.warehouse = warehouse
  asStream  : t.asStream = reader.asStream
  filter    : t.filter = reader.filter
  selects   : t.selects = reader.selects

theorem Readable.exists_readBy (r : sink.Readable) (reader : NodeSource) (warehouse : Warehouse) :
    ∃ t, sink.ReadBy reader warehouse t := by
  have ⟨table, ht, _⟩ := r.table
  exact ⟨⟨sink.catalogName, sink.schemaName, table, warehouse, reader.asStream, reader.filter,
    reader.selects⟩, rfl, rfl, ht.symm, rfl, rfl, rfl, rfl⟩

theorem asSource_ok_iff {t : TableSource} : sink.asSource reader warehouse = .ok t ↔
    sink.Readable ∧ sink.ReadBy reader warehouse t := by
  have he : ∀ name : Option String, name.getD "" ≠ "" ↔ ∃ x, name = some x ∧ x ≠ "" := by
    intro name
    cases name <;> simp
  by_cases ht : sink.tableName.getD "" = ""
  case pos =>
    have hr : ¬sink.Readable := fun h => (he _).mpr h.table ht
    simp [asSource, ht, hr]
  case neg =>
    by_cases hs : sink.schemaName.getD "" = ""
    case pos =>
      have hr : ¬sink.Readable := fun h => (he _).mpr h.schema hs
      simp [asSource, ht, hs, hr]
    case neg =>
      have ⟨table, ht', htn⟩ := (he _).mp ht
      have ⟨schema, hs', hsn⟩ := (he _).mp hs
      have hr : sink.Readable := ⟨⟨table, ht', htn⟩, schema, hs', hsn⟩
      simp only [asSource, ht', hs', Option.getD_some, String.isEmpty_iff, htn, hsn, if_false,
        pure_eq_ok, hr, true_and, Except.ok.injEq]
      constructor
      case mp  =>
        intro h
        subst h
        exact ⟨rfl, hs'.symm, ht'.symm, rfl, rfl, rfl, rfl⟩
      case mpr =>
        intro ⟨hc, hs, ht, hw, ha, hf, hl⟩
        cases t
        simp_all

end TableSink

namespace DataSource

def node? : DataSource → Option NodeSource
  | node s => some s
  | _      => none

-- What becomes of a source when `sink?` has the sinks of the nodes.
inductive Resolves (sink? : String → Option TableSink) (warehouse : Warehouse) :
    DataSource → ResolvedSource → Prop
  | event (s : EventSource) : Resolves sink? warehouse (.event s) (.event s)
  | table (s : TableSource) : Resolves sink? warehouse (.table s) (.table s false)
  | node {s : NodeSource} {sink : TableSink} {t : TableSource} :
      sink? s.nodeName = some sink → sink.Readable → sink.ReadBy s warehouse t →
      Resolves sink? warehouse (.node s) (.table t true)

theorem exists_resolves_iff {d : DataSource} {sink? : String → Option TableSink} :
    (∃ x, d.Resolves sink? warehouse x) ↔
      ∀ s, d.node? = some s → ∃ sink, sink? s.nodeName = some sink ∧ sink.Readable := by
  cases d
  case event s => exact ⟨fun _ _ h => (nomatch h), fun _ => ⟨_, .event s⟩⟩
  case table s => exact ⟨fun _ _ h => (nomatch h), fun _ => ⟨_, .table s⟩⟩
  case node s =>
    simp only [node?, Option.some.injEq, forall_eq']
    constructor
    case mp =>
      intro ⟨_, h⟩
      cases h
      case node hr hs _ => exact ⟨_, hs, hr⟩
    case mpr =>
      intro ⟨sink, hs, hr⟩
      have ⟨t, hb⟩ := hr.exists_readBy s warehouse
      exact ⟨_, .node hs hr hb⟩

end DataSource

namespace PipelineNode

def nodeSources (n : PipelineNode) : List NodeSource :=
  (n.source :: n.joins.map (·.other)).filterMap DataSource.node?

-- The nodes that this one reads, each for its first read.
def upstream (n : PipelineNode) : List String :=
  (n.nodeSources.map (·.nodeName)).eraseDups

theorem reads_names : n.reads.map (·.2) = n.nodeSources.map (·.nodeName) := by
  have hs : n.inputs.map (·.2) = n.source :: n.joins.map (·.other) := by
    have hj : n.joins.map (·.other) = n.joins.zipIdx.map fun found => found.1.other := by
      conv_lhs => rw [← zipIdx_map_fst 0 n.joins, List.map_map]
      rfl
    simp [inputs, hj, Function.comp_def]
  rw [nodeSources, ← hs, filterMap_map, map_filterMap, reads, map_filterMap]
  apply filterMap_congr
  intro (path, source) _
  cases source <;> rfl

theorem mem_upstream {name : String} :
    name ∈ n.upstream ↔ ∃ s ∈ n.nodeSources, s.nodeName = name := by
  simp [upstream, mem_eraseDups]

end PipelineNode

namespace Pipeline

def nodeNames (p : Pipeline) : List String :=
  p.nodes.map (·.name)

-- The first node reads what the second one writes.
def Reads (p : Pipeline) (a b : String) : Prop :=
  ∃ n ∈ p.nodes, n.name = a ∧ ∃ s ∈ n.nodeSources, s.nodeName = b

-- What it takes for a pipeline to have a node graph.
structure WellFormed (p : Pipeline) : Prop where
  named    : ∀ n ∈ p.nodes, n.name ≠ ""
  distinct : p.nodeNames.Nodup
  known    : ∀ (i : Nat) (n : PipelineNode), p.nodes[i]? = some n → ∀ s ∈ n.nodeSources,
    ∃ (j : Nat) (m : PipelineNode), p.nodes[j]? = some m ∧ m.name = s.nodeName ∧
      (p.allowForwardReferences = false → j ≤ i)
  acyclic  : Acyclic p.Reads
  readable : ∀ n ∈ p.nodes, ∀ s ∈ n.nodeSources, ∀ m ∈ p.nodes, m.name = s.nodeName →
    ∃ sink, m.sink = some sink ∧ (sink.withDefaults p.catalog p.target).Readable

theorem checkNames_ok_iff {seen : List String} {ns : List PipelineNode} :
    p.checkNames seen ns = .ok () ↔
      (∀ n ∈ ns, n.name ≠ "") ∧ (ns.map (·.name)).Nodup ∧ ∀ n ∈ ns, n.name ∉ seen := by
  induction ns generalizing seen
  case nil => simp [checkNames]
  case cons n ns ih =>
    rw [named_cons, ← ih]
    simp only [checkNames, String.isEmpty_iff, contains_iff_mem]
    by_cases he : n.name = "" <;> by_cases hs : n.name ∈ seen <;> simp [he, hs]

theorem position?_eq_some_iff {name : String} {j : Nat} :
    p.position? name = some j ↔ name ∈ p.nodeNames ∧ p.nodeNames.idxOf name = j :=
  findIdx?_key_eq_some_iff

-- The node at this place may read the one with this name.
def Allows (p : Pipeline) (i : Nat) (name : String) : Prop :=
  name ∈ p.nodeNames ∧ (p.allowForwardReferences = false → p.nodeNames.idxOf name ≤ i)

theorem readTarget_ok_iff {path name : String} {j : Nat} :
    p.readTarget n i path name = .ok j ↔ p.Allows i name ∧ p.nodeNames.idxOf name = j := by
  simp only [readTarget, Allows]
  cases hi : p.position? name
  case none =>
    have hm : name ∉ p.nodeNames := fun hm => by simp [position?_eq_some_iff.mpr ⟨hm, rfl⟩] at hi
    simp [hm]
  case some k =>
    have ⟨hm, hk⟩ := position?_eq_some_iff.mp hi
    subst hk
    cases ha : p.allowForwardReferences
    case true  => simp [hm]
    case false => by_cases hl : p.nodeNames.idxOf name ≤ i <;> simp [hm, hl]

-- What a node may not read is told with the path where it stands.
theorem readTarget_error {path name : String} {e : CompileError} (h : ¬p.Allows i name) :
    p.readTarget n i path name = .error e ↔
      e = .unresolvedReference p.name s!"nodes.{n.name}.{path}.node_name" name := by
  have ho : ∀ j, p.readTarget n i path name ≠ .ok j := fun j hj => h (readTarget_ok_iff.mp hj).left
  simp only [readTarget] at ho ⊢
  split
  case h_1 k hk =>
    rw [hk] at ho
    split
    case isTrue ha  => exact ho k (if_pos ha) |>.elim
    case isFalse    => simp [eq_comm]
  case h_2 => simp [eq_comm]

theorem idxOf_upstream (hu : ∀ name ∈ n.upstream, name ∈ p.nodeNames) :
    (n.reads.map fun read => p.nodeNames.idxOf read.2).eraseDups =
      n.upstream.map p.nodeNames.idxOf := by
  have hr : n.reads.map (fun read => p.nodeNames.idxOf read.2) =
      (n.nodeSources.map (·.nodeName)).map p.nodeNames.idxOf := by
    rw [← PipelineNode.reads_names, List.map_map]
    rfl
  rw [hr, PipelineNode.upstream]
  apply eraseDups_map_of_injOn
  intro a ha b _
  exact idxOf_inj (hu a <| by simpa [PipelineNode.upstream, mem_eraseDups] using ha) |>.mp

theorem readTargets_ok_iff {targets : List Nat} :
    n.reads.mapM (fun (path, name) => p.readTarget n i path name) = .ok targets ↔
      (∀ s ∈ n.nodeSources, p.Allows i s.nodeName) ∧
        (n.reads.map fun read => p.nodeNames.idxOf read.2) = targets := by
  have hr : (∀ s ∈ n.nodeSources, p.Allows i s.nodeName) ↔
      ∀ read ∈ n.reads, p.Allows i read.2 := by
    rw [← forall_mem_map (P := p.Allows i), ← PipelineNode.reads_names, forall_mem_map]
  rw [hr]
  exact mapM_ok_iff_map fun _ _ _ => readTarget_ok_iff

theorem feeders_error {e : CompileError} (h : p.feeders n i = .error e) :
    ∃ path name, (path, name) ∈ n.reads ∧ ¬p.Allows i name ∧
      e = .unresolvedReference p.name s!"nodes.{n.name}.{path}.node_name" name := by
  simp only [feeders, bind_error_iff, pure_eq_ok, reduceCtorEq, and_false, exists_false, or_false] at h
  have ⟨pre, (path, name), post, hr, _, he⟩ := mapM_error_iff.mp h
  have ha : ¬p.Allows i name :=
    fun ha => nomatch he.symm.trans <| readTarget_ok_iff.mpr ⟨ha, rfl⟩
  exact ⟨path, name, by simp [hr], ha, (readTarget_error ha).mp he⟩

-- The places of the nodes that feed the `i`th one.
theorem feeders_ok_iff {js : List Nat} : p.feeders n i = .ok js ↔
    (∀ s ∈ n.nodeSources, p.Allows i s.nodeName) ∧ n.upstream.map p.nodeNames.idxOf = js := by
  simp only [feeders, bind_ok_iff, readTargets_ok_iff, distinctBy_id, pure_eq_ok, Except.ok.injEq,
    and_assoc, exists_and_left, exists_eq_left']
  apply and_congr_right
  intro ha
  rw [idxOf_upstream]
  intro name hn
  obtain ⟨s, hs, he⟩ := PipelineNode.mem_upstream.mp hn
  exact he ▸ (ha s hs).left

-- Every node may read what it reads.
def Known (p : Pipeline) : Prop :=
  ∀ found ∈ p.nodes.zipIdx, ∀ s ∈ found.1.nodeSources, p.Allows found.2 s.nodeName

-- For each node, the places of those that feed it.
def feederPlaces (p : Pipeline) : List (List Nat) :=
  p.nodes.map fun n => n.upstream.map p.nodeNames.idxOf

theorem allFeeders_ok_iff {places : List (List Nat)} :
    p.nodes.zipIdx.mapM (fun (n, i) => p.feeders n i) = .ok places ↔
      p.Known ∧ p.feederPlaces = places := by
  have hp : p.feederPlaces =
      p.nodes.zipIdx.map fun found => found.1.upstream.map p.nodeNames.idxOf := by
    conv_lhs => rw [feederPlaces, ← zipIdx_map_fst 0 p.nodes, List.map_map]
    rfl
  rw [hp]
  exact mapM_ok_iff_map fun _ _ _ => feeders_ok_iff

theorem Known.mem_nodeNames (k : p.Known) (hn : n ∈ p.nodes) {name : String}
    (h : name ∈ n.upstream) : name ∈ p.nodeNames := by
  have ⟨i, hi⟩ := mem_iff_getElem?.mp hn
  have ⟨s, hs, he⟩ := PipelineNode.mem_upstream.mp h
  exact he ▸ k (n, i) (mk_mem_zipIdx_iff_getElem?.mpr hi) s hs |>.left

theorem idxOf_name (hn : p.nodeNames.Nodup) (h : p.nodes[i]? = some n) :
    p.nodeNames.idxOf n.name = i :=
  idxOf_key hn h

theorem allows_iff (hn : p.nodeNames.Nodup) {name : String} : p.Allows i name ↔
    ∃ (j : Nat) (m : PipelineNode), p.nodes[j]? = some m ∧ m.name = name ∧
      (p.allowForwardReferences = false → j ≤ i) := by
  constructor
  case mp =>
    intro ⟨hm, ha⟩
    have ⟨m, hm, he⟩ := mem_map.mp hm
    have ⟨j, hj⟩ := mem_iff_getElem?.mp hm
    exact ⟨j, m, hj, he, idxOf_name hn hj ▸ he ▸ ha⟩
  case mpr =>
    intro ⟨j, m, hj, he, ha⟩
    exact ⟨he ▸ mem_map_of_mem (mem_of_getElem? hj), he ▸ idxOf_name hn hj ▸ ha⟩

-- The pairs by which the nodes are put in order.
def pairs (p : Pipeline) : List Order.Pair :=
  p.feederPlaces.zipIdx.flatMap fun (targets, i) => targets.map fun j => (i, j)

theorem follows_pairs {j : Nat} : Order.Follows p.pairs i j ↔
    ∃ n, p.nodes[i]? = some n ∧ ∃ name ∈ n.upstream, p.nodeNames.idxOf name = j := by
  simp only [Order.Follows, pairs, mem_flatMap, mem_map, Prod.mk.injEq, Prod.exists,
    mk_mem_zipIdx_iff_getElem?, feederPlaces, getElem?_map, Option.map_eq_some_iff]
  constructor
  case mp =>
    rintro ⟨_, k, ⟨n, hn, ht⟩, j', hj', hk, hj⟩
    subst ht hk hj
    exact ⟨n, hn, mem_map.mp hj'⟩
  case mpr =>
    rintro ⟨n, hn, name, hm, hj⟩
    exact ⟨_, i, ⟨n, hn, rfl⟩, j, mem_map.mpr ⟨name, hm, hj⟩, rfl, rfl⟩

theorem names_pairs (hn : p.nodeNames.Nodup) (hk : p.Known) :
    Order.Names p.nodeNames p.Reads p.pairs where
  nodup   := hn
  follows := by
    intro i j h
    have ⟨n, hi, name, hu, hj⟩ := follows_pairs.mp h
    have hm := hk.mem_nodeNames (mem_of_getElem? hi) hu
    refine ⟨n.name, name, by simp [nodeNames, hi], ?_, n, mem_of_getElem? hi, rfl, ?_⟩
    · rw [← hj, getElem?_idxOf hm]
    · exact PipelineNode.mem_upstream.mp hu
  depends := by
    intro a b ⟨n, hm, ha, hs⟩
    have hu : b ∈ n.upstream := PipelineNode.mem_upstream.mpr hs
    have ⟨i, hi⟩ := mem_iff_getElem?.mp hm
    refine ⟨ha ▸ mem_map_of_mem hm, hk.mem_nodeNames hm hu, follows_pairs.mpr ⟨n, ?_, b, hu, rfl⟩⟩
    rw [← ha, idxOf_name hn hi, hi]

theorem nodeOrder_ok_iff {order : List Nat} : p.nodeOrder p.feederPlaces = .ok order ↔
    Order.sort p.nodeNames.length p.pairs = .ok order := by
  have hl : p.nodes.length = p.nodeNames.length := by simp [nodeNames]
  simp only [nodeOrder, hl, ← pairs.eq_1]
  cases Order.sort p.nodeNames.length p.pairs <;> simp

-- The sink of the node with this name.
def sinkOf? (p : Pipeline) (name : String) : Option TableSink :=
  (p.nodes.find? (·.name == name)).bind p.sink?

theorem resolveSource_ok_iff {d : DataSource} {x : ResolvedSource} :
    p.resolveSource settings d = .ok x ↔ d.Resolves p.sinkOf? settings.defaultWarehouse x := by
  cases d
  case event => exact ⟨fun h => by cases h; exact .event _, fun h => by cases h; rfl⟩
  case table => exact ⟨fun h => by cases h; exact .table _, fun h => by cases h; rfl⟩
  case node s =>
    simp only [resolveSource, sourceOfNode, ← sinkOf?.eq_1]
    constructor
    case mp =>
      intro h
      split at h
      case h_1 => contradiction
      case h_2 sink hs =>
        split at h <;> cases h
        case h_1 t ht =>
          have ⟨hr, hb⟩ := TableSink.asSource_ok_iff.mp ht
          exact .node hs hr hb
    case mpr =>
      intro h
      cases h
      case node hr hs hb => simp [hs, TableSink.asSource_ok_iff.mpr ⟨hr, hb⟩]

end Pipeline

-- What becomes of a node when `sink?` has the sinks of the nodes.
structure PipelineNode.Resolves (p : Pipeline) (settings : Settings)
    (sink? : String → Option TableSink) (n : PipelineNode) (resolved : ResolvedNode) : Prop where
  name        : resolved.name = n.name
  feeders     : resolved.feeders = n.upstream
  source      : n.source.Resolves sink? settings.defaultWarehouse resolved.source
  joins       : Forall₂ (fun join resolved =>
    join.other.Resolves sink? settings.defaultWarehouse resolved.other ∧
      resolved.on = join.on ∧ resolved.how = join.how) n.joins resolved.joins
  sink        : resolved.sink = n.sink.map (·.withDefaults p.catalog p.target)
  layer       : resolved.layer = n.layer
  transformer : resolved.transformer = n.transformer

theorem PipelineNode.exists_resolves_iff {sink? : String → Option TableSink} :
    (∃ resolved, n.Resolves p settings sink? resolved) ↔
      ∀ s ∈ n.nodeSources, ∃ sink, sink? s.nodeName = some sink ∧ sink.Readable := by
  have hs : (∀ s ∈ n.nodeSources, ∃ sink, sink? s.nodeName = some sink ∧ sink.Readable) ↔
      (∃ x, n.source.Resolves sink? settings.defaultWarehouse x) ∧
        ∀ j ∈ n.joins, ∃ x, j.other.Resolves sink? settings.defaultWarehouse x := by
    simp only [DataSource.exists_resolves_iff, nodeSources, mem_filterMap, forall_exists_index,
      and_imp]
    rw [forall_comm]
    simp only [forall_comm (α := NodeSource), forall_mem_cons, forall_mem_map]
  rw [hs]
  constructor
  case mp =>
    intro ⟨w, h⟩
    refine ⟨⟨_, h.source⟩, fun j hj => ?_⟩
    have ⟨k, _, hk, _⟩ := exists_of_forall₂_left h.joins hj
    exact ⟨_, hk⟩
  case mpr =>
    intro ⟨⟨source, hx⟩, hj⟩
    have hk : ∀ j ∈ n.joins, ∃ k : ResolvedJoin,
        j.other.Resolves sink? settings.defaultWarehouse k.other ∧ k.on = j.on ∧ k.how = j.how := by
      intro j h
      have ⟨x, hx⟩ := hj j h
      exact ⟨⟨x, j.on, j.how⟩, hx, rfl, rfl⟩
    have ⟨joins, hjs⟩ := exists_forall₂_iff.mpr hk
    exact ⟨⟨n.name, n.upstream, source, joins, _, n.layer, n.transformer⟩,
      rfl, rfl, hx, hjs, rfl, rfl, rfl⟩

namespace Pipeline

theorem names_idxOf {xs : List String} (h : ∀ name ∈ xs, name ∈ p.nodeNames) :
    p.names (xs.map p.nodeNames.idxOf) = xs := by
  have hn : ∀ name ∈ xs, p.nodes[p.nodeNames.idxOf name]?.map (·.name) = some name := by
    intro name hx
    rw [← getElem?_map]
    exact getElem?_idxOf (h name hx)
  rw [names, filterMap_map]
  exact (filterMap_congr hn).trans filterMap_some

theorem resolveJoin_ok_iff {join : Join} {resolved : ResolvedJoin} :
    (do return { other := ← p.resolveSource settings join.other, on := join.on, how := join.how } :
      Except CompileError ResolvedJoin) = .ok resolved ↔
      join.other.Resolves p.sinkOf? settings.defaultWarehouse resolved.other ∧
        resolved.on = join.on ∧ resolved.how = join.how := by
  simp only [bind_ok_iff, resolveSource_ok_iff, pure_eq_ok, Except.ok.injEq]
  constructor
  case mp =>
    intro ⟨x, hx, h⟩
    subst h
    exact ⟨hx, rfl, rfl⟩
  case mpr => exact fun ⟨hx, ho, hh⟩ => ⟨_, hx, by rw [← ho, ← hh]⟩

theorem resolveNode_ok_iff {resolved : ResolvedNode} (hk : p.Known) (hn : n ∈ p.nodes) :
    p.resolveNode settings n (n.upstream.map p.nodeNames.idxOf) = .ok resolved ↔
      n.Resolves p settings p.sinkOf? resolved := by
  rw [resolveNode, bind_ok_iff]
  simp only [mapM_ok_iff, resolveJoin_ok_iff, names_idxOf fun _ => hk.mem_nodeNames hn]
  simp only [bind_ok_iff, resolveSource_ok_iff]
  constructor
  case mp =>
    intro ⟨joins, hj, source, hs, h⟩
    cases h
    exact ⟨rfl, rfl, hs, hj, rfl, rfl, rfl⟩
  case mpr =>
    intro h
    refine ⟨_, h.joins, _, h.source, ?_⟩
    rw [sink?, ← h.name, ← h.feeders, ← h.sink, ← h.layer, ← h.transformer]
    rfl

-- The nodes in their order, with the places of those that feed them.
theorem inOrder_eq (order : List Nat) :
    (order.filterMap fun i => do some (← p.nodes[i]?, ← p.feederPlaces[i]?)) =
      (order.filterMap (p.nodes[·]?)).map fun n => (n, n.upstream.map p.nodeNames.idxOf) := by
  rw [map_filterMap]
  apply filterMap_congr
  intro i _
  cases h : p.nodes[i]? <;> simp [feederPlaces, h]

theorem resolveNodes_ok_iff {order : List Nat} {nodes : List ResolvedNode} (hk : p.Known) :
    (order.filterMap fun i => do some (← p.nodes[i]?, ← p.feederPlaces[i]?)).mapM
        (fun (n, targets) => p.resolveNode settings n targets) = .ok nodes ↔
      Forall₂ (PipelineNode.Resolves p settings p.sinkOf?) (order.filterMap (p.nodes[·]?)) nodes := by
  rw [inOrder_eq, mapM_map]
  apply mapM_ok_iff_forall₂
  intro n hn _
  have ⟨_, _, hi⟩ := mem_filterMap.mp hn
  exact resolveNode_ok_iff hk <| mem_of_getElem? hi

-- How a node graph comes from its pipeline.
structure Built (p : Pipeline) (s : Settings) (order : List Nat) (g : NodeGraph) : Prop where
  named    : ∀ n ∈ p.nodes, n.name ≠ ""
  distinct : p.nodeNames.Nodup
  known    : p.Known
  sort     : Order.sort p.nodeNames.length p.pairs = .ok order
  name     : g.name = p.name
  mode     : g.mode = p.orchestrator.mode
  settings : g.settings = s
  nodes    : Forall₂ (PipelineNode.Resolves p s p.sinkOf?) (order.filterMap (p.nodes[·]?)) g.nodes

theorem nodes_perm {order : List Nat} (h : Order.sort p.nodeNames.length p.pairs = .ok order) :
    order.filterMap (p.nodes[·]?) ~ p.nodes :=
  Order.sort_perm <| by simpa [nodeNames] using h

theorem graph_ok_iff : p.graph settings = .ok g ↔ ∃ order, p.Built settings order g := by
  simp only [graph, bind_ok_iff, allFeeders_ok_iff, pure_eq_ok]
  constructor
  case mp =>
    intro ⟨_, hc, _, ⟨hk, hp⟩, order, ho, nodes, hs, h⟩
    subst hp
    cases h
    have ⟨hn, hd, _⟩ := checkNames_ok_iff.mp hc
    exact ⟨order, hn, hd, hk, nodeOrder_ok_iff.mp ho, rfl, rfl, rfl, (resolveNodes_ok_iff hk).mp hs⟩
  case mpr =>
    intro ⟨order, b⟩
    refine ⟨(), checkNames_ok_iff.mpr ⟨b.named, b.distinct, by simp⟩, _, ⟨b.known, rfl⟩, order,
      nodeOrder_ok_iff.mpr b.sort, _, (resolveNodes_ok_iff b.known).mpr b.nodes, ?_⟩
    rw [← b.name, ← b.mode, ← b.settings]

theorem sinkOf?_eq_some_iff (hn : p.nodeNames.Nodup) {name : String} : p.sinkOf? name = some sink ↔
    ∃ m ∈ p.nodes, m.name = name ∧ p.sink? m = some sink := by
  simp only [sinkOf?, Option.bind_eq_some_iff, find?_key_eq_some_iff hn, and_assoc]

theorem wellFormed_iff (settings : Settings) : p.WellFormed ↔
    (∀ n ∈ p.nodes, n.name ≠ "") ∧ p.nodeNames.Nodup ∧ p.Known ∧ Acyclic p.Reads ∧
      ∀ n ∈ p.nodes, ∃ resolved, n.Resolves p settings p.sinkOf? resolved := by
  simp only [PipelineNode.exists_resolves_iff]
  constructor
  case mp =>
    intro w
    refine ⟨w.named, w.distinct, ?_, w.acyclic, fun n hn s hs => ?_⟩
    · intro (n, i) hm s hs
      exact allows_iff w.distinct |>.mpr <| w.known i n (mk_mem_zipIdx_iff_getElem?.mp hm) s hs
    · have ⟨i, hi⟩ := mem_iff_getElem?.mp hn
      have ⟨j, m, hj, hm, _⟩ := w.known i n hi s hs
      have ⟨sink, hk, hr⟩ := w.readable n hn s hs m (mem_of_getElem? hj) hm
      refine ⟨_, sinkOf?_eq_some_iff w.distinct |>.mpr ⟨m, mem_of_getElem? hj, hm, ?_⟩, hr⟩
      simp [sink?, hk]
  case mpr =>
    intro ⟨hn, hd, hk, ha, hr⟩
    refine ⟨hn, hd, fun i n hi s hs => ?_, ha, fun n hn s hs m hm he => ?_⟩
    · exact allows_iff hd |>.mp <| hk (n, i) (mk_mem_zipIdx_iff_getElem?.mpr hi) s hs
    · have ⟨_, hs, hr⟩ := hr n hn s hs
      have ⟨m', hm', he', hs⟩ := sinkOf?_eq_some_iff hd |>.mp hs
      rw [inj_on_of_nodup_map hd hm' hm (he'.trans he.symm)] at hs
      have ⟨sink, hk, hd⟩ := Option.map_eq_some_iff.mp hs
      exact ⟨sink, hk, hd ▸ hr⟩

theorem graph_isOk_iff : (∃ g, p.graph settings = .ok g) ↔ p.WellFormed := by
  rw [wellFormed_iff settings]
  constructor
  case mp =>
    intro ⟨g, h⟩
    have ⟨order, b⟩ := graph_ok_iff.mp h
    have ha := names_pairs b.distinct b.known |>.sort_isOk_iff.mp ⟨order, b.sort⟩
    refine ⟨b.named, b.distinct, b.known, ha, fun n hn => ?_⟩
    have ⟨resolved, _, hr⟩ := exists_of_forall₂_left b.nodes <| (nodes_perm b.sort).mem_iff.mpr hn
    exact ⟨resolved, hr⟩
  case mpr =>
    intro ⟨hn, hd, hk, ha, hr⟩
    have ⟨order, ho⟩ := names_pairs hd hk |>.sort_isOk_iff.mpr ha
    have ⟨nodes, hs⟩ := exists_forall₂_iff.mpr fun n h => hr n <| (nodes_perm ho).mem_iff.mp h
    exact ⟨⟨p.name, p.orchestrator.mode, nodes, settings⟩, graph_ok_iff.mpr
      ⟨order, hn, hd, hk, ho, rfl, rfl, rfl, hs⟩⟩

end Pipeline

-- The sink that the graph has for the node with this name.
def NodeGraph.sinkOf? (g : NodeGraph) (name : String) : Option TableSink :=
  (g.node? name).bind (·.sink)

-- What holds of the node graph of a pipeline.
structure Pipeline.Resolves (p : Pipeline) (s : Settings) (g : NodeGraph) : Prop where
  name     : g.name = p.name
  mode     : g.mode = p.orchestrator.mode
  settings : g.settings = s
  nodes    : ∃ ns, ns ~ p.nodes ∧ Forall₂ (PipelineNode.Resolves p s g.sinkOf?) ns g.nodes
  ordered  : ∀ before n after, g.nodes = before ++ n :: after →
    ∀ name ∈ n.feeders, ∃ m ∈ before, m.name = name

namespace Pipeline

variable {order : List Nat}

theorem find?_sink {sink? : String → Option TableSink} {ns : List PipelineNode}
    {resolved : List ResolvedNode} (h : Forall₂ (PipelineNode.Resolves p settings sink?) ns resolved)
    (name : String) : (resolved.find? (·.name == name)).bind (·.sink) =
      (ns.find? (·.name == name)).bind p.sink? := by
  induction h
  case nil => rfl
  case cons n m _ _ hr _ ih =>
    simp only [find?_cons, hr.name]
    cases n.name == name
    case true  => exact hr.sink
    case false => exact ih

namespace Built

theorem sinkOf?_eq (b : p.Built settings order g) : g.sinkOf? = p.sinkOf? := by
  have hp := nodes_perm b.sort
  have hn : ((order.filterMap (p.nodes[·]?)).map (·.name)).Nodup :=
    (hp.map _).nodup_iff.mpr b.distinct
  funext name
  rw [NodeGraph.sinkOf?, NodeGraph.node?, find?_sink b.nodes, find?_key_perm hp hn, Pipeline.sinkOf?]

theorem names_eq (b : p.Built settings order g) :
    g.nodes.map (·.name) = order.filterMap (p.nodeNames[·]?) := by
  have hn : order.filterMap (p.nodeNames[·]?) = (order.filterMap (p.nodes[·]?)).map (·.name) := by
    simp [nodeNames, map_filterMap]
  exact hn ▸ forall₂_map_eq (fun _ _ h => h.name) b.nodes

theorem nodup_names (b : p.Built settings order g) : (g.nodes.map (·.name)).Nodup :=
  b.names_eq ▸ (names_pairs b.distinct b.known |>.sort_ok b.sort |>.left.nodup_iff.mpr b.distinct)

-- A node that feeds another one is read by it.
theorem reads (b : p.Built settings order g) {n : ResolvedNode} {name : String} (hn : n ∈ g.nodes)
    (h : name ∈ n.feeders) : p.Reads n.name name := by
  have ⟨m, hm, hr⟩ := exists_of_forall₂_right b.nodes hn
  refine ⟨m, (nodes_perm b.sort).mem_iff.mp hm, hr.name.symm, ?_⟩
  exact PipelineNode.mem_upstream.mp <| hr.feeders ▸ h

theorem ordered (b : p.Built settings order g) : Ordered p.Reads (g.nodes.map (·.name)) :=
  b.names_eq ▸ (names_pairs b.distinct b.known |>.sort_ok b.sort |>.right)

theorem resolves (b : p.Built settings order g) : p.Resolves settings g where
  name     := b.name
  mode     := b.mode
  settings := b.settings
  nodes    := ⟨_, nodes_perm b.sort, b.sinkOf?_eq ▸ b.nodes⟩
  ordered  := by
    intro before n after hg name hf
    have hu := b.reads (hg ▸ mem_append_right _ mem_cons_self) hf
    have hb := b.ordered (before.map (·.name)) n.name (after.map (·.name)) (by simp [hg]) name hu
    exact mem_map.mp hb

end Built

-- There is a node graph exactly for a well-formed pipeline, and all of it is as the pipeline says.
theorem graph_exact (p : Pipeline) (settings : Settings) :
    ((∃ g, p.graph settings = .ok g) ↔ p.WellFormed) ∧
      ∀ g, p.graph settings = .ok g → p.Resolves settings g := by
  refine ⟨graph_isOk_iff, fun g h => ?_⟩
  have ⟨_, b⟩ := graph_ok_iff.mp h
  exact b.resolves

end Pipeline

end Lakehouse
