import Lakehouse.NodeGraph.Document
import Lakehouse.Proofs.Attempt
/-!
What a pipeline reads. How its sinks are written, the layers and the transformers of its nodes are of
no account to the order of its nodes, to what feeds them, and to the sources that they read.
-/
namespace Lakehouse

open List Attempt

section Lists

variable {α β : Type} {R : α → β → Prop} {xs : List α} {ys : List β}

theorem forall₂_getElem? (h : Forall₂ R xs ys) (i : Nat) : Option.Rel R xs[i]? ys[i]? := by
  induction h generalizing i
  case nil => exact .none
  case cons hr _ ih =>
    cases i
    case zero   => exact .some hr
    case succ i => exact ih i

theorem forall₂_find? {p : α → Bool} {q : β → Bool} (hp : ∀ x y, R x y → q y = p x)
    (h : Forall₂ R xs ys) : Option.Rel R (xs.find? p) (ys.find? q) := by
  induction h
  case nil => exact .none
  case cons x y _ _ hr _ ih =>
    rw [find?_cons, find?_cons, hp x y hr]
    cases p x
    case true  => exact .some hr
    case false => exact ih

end Lists

-- The same table, whatever way it is written.
structure TableSink.SameReads (s s' : TableSink) : Prop where
  catalogName : s'.catalogName = s.catalogName
  schemaName  : s'.schemaName = s.schemaName
  tableName   : s'.tableName = s.tableName

-- The same node but for the way its sink is written, its layer and its transformer.
structure PipelineNode.SameReads (n n' : PipelineNode) : Prop where
  name   : n'.name = n.name
  source : n'.source = n.source
  joins  : n'.joins = n.joins
  sink   : Option.Rel TableSink.SameReads n.sink n'.sink

structure Pipeline.SameReads (p p' : Pipeline) : Prop where
  same  : p' = { p with nodes := p'.nodes }
  nodes : Forall₂ PipelineNode.SameReads p.nodes p'.nodes

structure ResolvedNode.SameReads (n n' : ResolvedNode) : Prop where
  name    : n'.name = n.name
  feeders : n'.feeders = n.feeders
  source  : n'.source = n.source
  joins   : n'.joins = n.joins
  sink    : Option.Rel TableSink.SameReads n.sink n'.sink

structure NodeGraph.SameReads (g g' : NodeGraph) : Prop where
  same  : g' = { g with nodes := g'.nodes }
  nodes : Forall₂ ResolvedNode.SameReads g.nodes g'.nodes

namespace TableSink.SameReads

variable {s s' : TableSink} {catalog schema : Option String}

theorem withDefaults (h : s.SameReads s') :
    (s.withDefaults catalog schema).SameReads (s'.withDefaults catalog schema) where
  catalogName := by simp only [TableSink.withDefaults, h.catalogName]
  schemaName  := by simp only [TableSink.withDefaults, h.schemaName]
  tableName   := h.tableName

theorem asSource (h : s.SameReads s') (reader : NodeSource) (warehouse : Warehouse) :
    s'.asSource reader warehouse = s.asSource reader warehouse := by
  simp only [TableSink.asSource, h.catalogName, h.schemaName, h.tableName]

end TableSink.SameReads

theorem PipelineNode.SameReads.reads {n n' : PipelineNode} (h : n.SameReads n') :
    n'.reads = n.reads := by
  simp only [PipelineNode.reads, inputs, h.source, h.joins]

namespace Pipeline

variable {p : Pipeline} {n n' : PipelineNode} {ns : List PipelineNode}

-- The pipeline with other nodes.
def withNodes (p : Pipeline) (ns : List PipelineNode) : Pipeline :=
  { p with nodes := ns }

@[simp]
theorem withNodes_name : (p.withNodes ns).name = p.name :=
  rfl

@[simp]
theorem withNodes_orchestrator : (p.withNodes ns).orchestrator = p.orchestrator :=
  rfl

@[simp]
theorem withNodes_nodes : (p.withNodes ns).nodes = ns :=
  rfl

@[simp]
theorem withNodes_allowForwardReferences :
    (p.withNodes ns).allowForwardReferences = p.allowForwardReferences :=
  rfl

theorem withNodes_sink? : (p.withNodes ns).sink? = p.sink? :=
  rfl

theorem checkNames_withNodes {seen : List String} {ms : List PipelineNode}
    (h : Forall₂ PipelineNode.SameReads ms ns) {ls : List PipelineNode} :
    (p.withNodes ls).checkNames seen ns = p.checkNames seen ms := by
  induction h generalizing seen
  case nil          => rfl
  case cons hn _ ih => simp only [checkNames, withNodes_name, hn.name, ih]

theorem sink?_rel (h : n.SameReads n') : Option.Rel TableSink.SameReads (p.sink? n) (p.sink? n') := by
  have hs := h.sink
  rw [sink?, sink?]
  generalize n.sink = sink, n'.sink = sink' at hs
  cases hs
  case none   => exact .none
  case some h => exact .some h.withDefaults

variable (h : Forall₂ PipelineNode.SameReads p.nodes ns)
include h

theorem names_of_sameReads : ns.map (·.name) = p.nodes.map (·.name) :=
  forall₂_map_eq (fun _ _ h => h.name) h

theorem position?_withNodes (name : String) :
    (p.withNodes ns).position? name = p.position? name := by
  have hf : ∀ ms : List PipelineNode, ms.findIdx? (·.name == name) =
      (ms.map (·.name)).findIdx? (· == name) := fun ms => by rw [findIdx?_map]; rfl
  rw [position?, position?, hf, hf, withNodes_nodes, names_of_sameReads h]

theorem names_withNodes (indices : List Nat) : (p.withNodes ns).names indices = p.names indices := by
  simp only [names, ← getElem?_map, withNodes_nodes, names_of_sameReads h]

theorem feeders_withNodes (hn : n.SameReads n') (i : Nat) :
    (p.withNodes ns).feeders n' i = p.feeders n i := by
  simp only [feeders, readTarget, position?_withNodes h, hn.reads, hn.name, withNodes_name,
    withNodes_allowForwardReferences]

theorem nodeOrder_withNodes (feeders : List (List Nat)) :
    (p.withNodes ns).nodeOrder feeders = p.nodeOrder feeders := by
  simp only [nodeOrder, names_withNodes h, withNodes_nodes, withNodes_name, h.length_eq]

theorem resolveSource_withNodes (settings : Settings) (d : DataSource) :
    (p.withNodes ns).resolveSource settings d = p.resolveSource settings d := by
  cases d
  case node s =>
    have hf : Option.Rel PipelineNode.SameReads (p.nodes.find? (·.name == s.nodeName))
        (ns.find? (·.name == s.nodeName)) := forall₂_find? (fun _ _ h => by rw [h.name]) h
    simp only [resolveSource, sourceOfNode, withNodes_sink?, withNodes_nodes, withNodes_name]
    generalize p.nodes.find? _ = found, ns.find? _ = found' at hf
    cases hf
    case none => rfl
    case some n n' hn =>
      have hs : Option.Rel TableSink.SameReads (p.sink? n) (p.sink? n') := sink?_rel hn
      simp only [Option.bind_some]
      generalize p.sink? n = sink, p.sink? n' = sink' at hs
      cases hs
      case none   => rfl
      case some h => simp only [h.asSource]
  all_goals rfl

theorem resolveNode_withNodes (settings : Settings) (hn : n.SameReads n') (feeders : List Nat) :
    Alike ResolvedNode.SameReads (p.resolveNode settings n feeders)
      ((p.withNodes ns).resolveNode settings n' feeders) := by
  simp only [resolveNode, resolveSource_withNodes h, hn.joins, hn.source, hn.name,
    names_withNodes h]
  refine Alike.bind_same fun js => ?_
  refine Alike.bind_same fun x => ?_
  exact .ok ⟨rfl, rfl, rfl, rfl, sink?_rel hn⟩

-- The node graph is the same, or fails to be built in the same way.
theorem graph_withNodes (settings : Settings) :
    Alike NodeGraph.SameReads (p.graph settings) ((p.withNodes ns).graph settings) := by
  have hf : ns.zipIdx.mapM (fun found => (p.withNodes ns).feeders found.1 found.2) =
      p.nodes.zipIdx.mapM fun found => p.feeders found.1 found.2 := by
    apply mapM_congr_forall₂
    refine (forall₂_zipIdx h 0).imp fun found found' hn => ?_
    rw [hn.right, feeders_withNodes h hn.left]
  simp only [graph, withNodes_nodes, checkNames_withNodes h, hf, nodeOrder_withNodes h]
  refine Alike.bind_same fun _ => ?_
  refine Alike.bind_same fun feeders => ?_
  refine Alike.bind_same fun order => ?_
  have ho : Forall₂ (fun x y => x.1.SameReads y.1 ∧ y.2 = x.2)
      (order.filterMap fun i => do some (← p.nodes[i]?, ← feeders[i]?))
      (order.filterMap fun i => do some (← ns[i]?, ← feeders[i]?)) := by
    refine rel_filterMap ?_ (forall₂_same.mpr fun i _ => Eq.refl i)
    rintro i _ rfl
    have hn := forall₂_getElem? h i
    simp only [Option.bind_eq_bind]
    generalize p.nodes[i]? = n, ns[i]? = n' at hn ⊢
    cases hn
    case none    => exact .none
    case some hn =>
      cases feeders[i]?
      case none   => exact .none
      case some _ => exact .some ⟨hn, rfl⟩
  refine Alike.bind (Alike.mapM <| ho.imp fun x y hn => ?_) fun _ _ hr => .ok ⟨rfl, hr⟩
  rw [hn.right]
  exact resolveNode_withNodes h settings hn.left _

end Pipeline

end Lakehouse
