import Lakehouse.Proofs.Settled
import Lakehouse.Proofs.Stages
/-!
Forward references. A pipeline that forbids them only refuses more than one that allows them: what it
accepts keeps its order and has the same node graph, a cycle in it is a node that reads itself, and the
first read that does not lead back is the one that it is refused for.
-/
namespace Lakehouse

open List Attempt

namespace Pipeline

variable {p : Pipeline} {settings : Settings} {order : List Nat} {g : NodeGraph} {e : CompileError}
variable {a b : String} {walk : List String}

-- The same pipeline with forward references.
def permissive (p : Pipeline) : Pipeline :=
  { p with allowForwardReferences := true }

-- A read of another node, with the place of the reader and the path at which it stands there.
structure NodeRead where
  reader : PipelineNode
  place  : Nat
  path   : String
  name   : String

-- The reads of all nodes, in order.
def nodeReads (p : Pipeline) : List NodeRead :=
  p.nodes.zipIdx.flatMap fun (n, i) => n.reads.map fun (path, name) => ⟨n, i, path, name⟩

-- The node that is read stands before the reader, or is the reader itself.
def Backward (p : Pipeline) (r : NodeRead) : Prop :=
  r.name ∈ p.nodeNames.take (r.place + 1)

instance {r : NodeRead} : Decidable (p.Backward r) :=
  inferInstanceAs (Decidable (_ ∈ _))

-- There is no node graph, and the first read that does not lead back is told.
def Refused (p : Pipeline) (settings : Settings) : Prop :=
  ∃ r, Order.First (¬p.Backward ·) p.nodeReads r ∧ p.graph settings =
    .error (.unresolvedReference p.name s!"nodes.{r.reader.name}.{r.path}.node_name" r.name)

-- What it means for a pipeline to forbid forward references.
structure Restricted (p : Pipeline) (settings : Settings) : Prop where
  -- What is built has its nodes as they are declared, and is built as well where they are allowed.
  declared : ∀ g, p.graph settings = .ok g →
    g.nodes.map (·.name) = p.nodeNames ∧ p.permissive.graph settings = .ok g
  -- Where all reads lead to earlier nodes, nothing is refused that is built otherwise.
  earlier  : ∀ g, p.permissive.graph settings = .ok g →
    (∀ r ∈ p.nodeReads, r.name ∈ p.nodeNames.take r.place) → p.graph settings = .ok g
  -- No cycle is told but that of a node that reads itself.
  cyclic   : ∀ network names, p.graph settings = .error (.cyclicDependency network names) →
    network = .pipeline p.name ∧ ∃ name, p.Reads name name ∧ names = [name]
  forward  : (∀ n ∈ p.nodes, n.name ≠ "") → p.nodeNames.Nodup →
    (∃ r ∈ p.nodeReads, ¬p.Backward r) → p.Refused settings
  -- So a longer cycle is refused for one of its reads, or for an earlier one.
  circuit  : (∀ n ∈ p.nodes, n.name ≠ "") → p.nodeNames.Nodup →
    ∀ walk, Circuit p.Reads walk → 1 < walk.length → p.Refused settings

theorem mem_nodeReads {r : NodeRead} : r ∈ p.nodeReads ↔
    p.nodes[r.place]? = some r.reader ∧ (r.path, r.name) ∈ r.reader.reads := by
  simp only [nodeReads, mem_flatMap, mem_map, Prod.exists, mk_mem_zipIdx_iff_getElem?]
  constructor
  case mp =>
    rintro ⟨n, i, hn, path, name, hr, rfl⟩
    exact ⟨hn, hr⟩
  case mpr => exact fun ⟨hn, hr⟩ => ⟨_, _, hn, _, _, hr, rfl⟩

theorem known_iff : p.Known ↔ ∀ r ∈ p.nodeReads, p.Allows r.place r.name := by
  constructor
  case mp =>
    intro hk r hr
    obtain ⟨hn, hr⟩ := mem_nodeReads.mp hr
    have hm : r.name ∈ r.reader.nodeSources.map (·.nodeName) :=
      PipelineNode.reads_names ▸ mem_map_of_mem hr
    obtain ⟨s, hs, he⟩ := mem_map.mp hm
    exact he ▸ hk (r.reader, r.place) (mk_mem_zipIdx_iff_getElem?.mpr hn) s hs
  case mpr =>
    intro hr (n, i) hn s hs
    have hm : s.nodeName ∈ n.reads.map (·.2) := PipelineNode.reads_names ▸ mem_map_of_mem hs
    obtain ⟨⟨path, _⟩, hm, rfl⟩ := mem_map.mp hm
    exact hr ⟨n, i, path, _⟩ <| mem_nodeReads.mpr ⟨mk_mem_zipIdx_iff_getElem?.mp hn, hm⟩

-- All nodes fail to be fed as their reads fail one after the other.
theorem allFeeders_error_iff :
    p.nodes.zipIdx.mapM (fun (n, i) => p.feeders n i) = .error e ↔
      p.nodeReads.mapM (fun r => p.readTarget r.reader r.place r.path r.name) = .error e := by
  apply mapM_flatMap_error_iff
  intro (n, i) _ e
  simp [feeders, bind_error_iff, mapM_map, Function.comp_def]

-- What becomes of the nodes is the same.
theorem resolves_permissive :
    PipelineNode.Resolves p.permissive settings p.permissive.sinkOf? =
      PipelineNode.Resolves p settings p.sinkOf? := by
  funext n resolved
  exact propext ⟨fun h => ⟨h.name, h.feeders, h.source, h.joins, h.sink, h.layer, h.transformer⟩,
    fun h => ⟨h.name, h.feeders, h.source, h.joins, h.sink, h.layer, h.transformer⟩⟩

-- Only what may be read is not the same.
theorem built_permissive_iff (hk : p.Known) :
    p.permissive.Built settings order g ↔ p.Built settings order g := by
  have hn : p.permissive.Known := fun found hf s hs => ⟨(hk found hf s hs).left, fun h => nomatch h⟩
  constructor
  case mp =>
    intro b
    refine ⟨b.named, b.distinct, hk, b.sort, b.name, b.mode, b.settings, ?_⟩
    exact resolves_permissive ▸ b.nodes
  case mpr =>
    intro b
    refine ⟨b.named, b.distinct, hn, b.sort, b.name, b.mode, b.settings, ?_⟩
    exact resolves_permissive.symm ▸ b.nodes

-- Whatever is told as a cycle is one, and all that is read may be read.
theorem graph_cyclic {network : Network} {names : List String}
    (h : p.graph settings = .error (.cyclicDependency network names)) :
    p.nodeNames.Nodup ∧ p.Known ∧ network = .pipeline p.name ∧
      Encircles p.Reads p.nodeNames names := by
  have hn : ¬(CompileError.cyclicDependency network names).IsEarly := fun h => nomatch h
  simp only [graph, bind_error_iff, pure_eq_ok, reduceCtorEq, and_false, exists_false,
    or_false] at h
  obtain h | ⟨_, hc, h | ⟨places, hp, h | ⟨order, _, h⟩⟩⟩ := h
  · exact hn (checkNames_inner _ h).early |>.elim
  · obtain ⟨_, ⟨n, i⟩, _, _, _, h⟩ := mapM_error_iff.mp h
    obtain ⟨_, _, _, _, he⟩ := feeders_error h
    cases he
  · obtain ⟨_, hd, _⟩ := checkNames_ok_iff.mp hc
    obtain ⟨hk, rfl⟩ := allFeeders_ok_iff.mp hp
    cases nodeOrder_tangle hd hk _ h
    case circuit hc => exact ⟨hd, hk, rfl, hc⟩
  · exact hn (FailsOnly.mapM (fun _ _ => resolveNode_inner) _ h).early |>.elim

section

variable (h : p.allowForwardReferences = false)
include h

theorem allows_iff_backward {r : NodeRead} : p.Allows r.place r.name ↔ p.Backward r := by
  constructor
  case mp =>
    intro ⟨hm, hi⟩
    exact mem_take_iff_idxOf_lt hm |>.mpr <| Nat.lt_succ_of_le <| hi h
  case mpr =>
    intro hb
    have hm := mem_of_mem_take hb
    exact ⟨hm, fun _ => Nat.le_of_lt_succ <| mem_take_iff_idxOf_lt hm |>.mp hb⟩

theorem known_iff_backward : p.Known ↔ ∀ r ∈ p.nodeReads, p.Backward r := by
  simp only [known_iff, allows_iff_backward h]

-- The first read that does not lead back decides.
theorem refused_of_not_known (hn : ∀ n ∈ p.nodes, n.name ≠ "") (hd : p.nodeNames.Nodup)
    (hk : ¬p.Known) : p.Refused settings := by
  have hc : p.checkNames [] p.nodes = .ok () := checkNames_ok_iff.mpr ⟨hn, hd, by simp⟩
  cases hf : p.nodes.zipIdx.mapM fun (n, i) => p.feeders n i
  case ok => exact hk (allFeeders_ok_iff.mp hf).left |>.elim
  case error e =>
    obtain ⟨pre, r, post, hr, hp, he⟩ := mapM_error_iff.mp <| allFeeders_error_iff.mp hf
    have ha : ¬p.Allows r.place r.name :=
      fun ha => nomatch he.symm.trans <| readTarget_ok_iff.mpr ⟨ha, rfl⟩
    refine ⟨r, Order.First.iff_append.mpr ⟨pre, post, hr, fun q hq hb => hb ?_, ?_⟩, ?_⟩
    · obtain ⟨_, ho⟩ := hp q hq
      exact allows_iff_backward h |>.mp (readTarget_ok_iff.mp ho).left
    · exact allows_iff_backward h |>.not.mp ha
    · rw [graph, hc, ok_bind, hf, error_bind, (readTarget_error ha).mp he]

namespace Known

variable (hk : p.Known) (hd : p.nodeNames.Nodup)
include hk hd

theorem idxOf_le (hr : p.Reads a b) : p.nodeNames.idxOf b ≤ p.nodeNames.idxOf a := by
  obtain ⟨n, hm, rfl, s, hs, rfl⟩ := hr
  obtain ⟨i, hi⟩ := mem_iff_getElem?.mp hm
  rw [idxOf_name hd hi]
  exact (hk (n, i) (mk_mem_zipIdx_iff_getElem?.mpr hi) s hs).right h

theorem circuit (hc : Circuit p.Reads walk) : ∃ name, walk = [name] ∧ p.Reads name name := by
  apply hc.eq_singleton fun _ _ => hk.idxOf_le h hd
  intro x hx y _
  obtain ⟨_, hr⟩ := hc.exists_next hx
  exact idxOf_inj (names_pairs hd hk |>.depends _ _ hr).left |>.mp

end Known

-- Reads lead to nodes before, so the declared order is the stable one.
theorem Built.order_eq_range (b : p.Built settings order g) : order = range p.nodeNames.length := by
  have n := names_pairs b.distinct b.known
  have ha := n.sort_isOk_iff.mp ⟨order, b.sort⟩
  refine Order.sort_eq_range (fun i j hf => ?_) b.sort
  obtain ⟨x, y, hx, hy, hr⟩ := n.follows i j hf
  have hle := b.known.idxOf_le h b.distinct hr
  rw [n.idxOf_eq hx, n.idxOf_eq hy] at hle
  refine Nat.lt_of_le_of_ne hle fun he => ?_
  rw [he, hx] at hy
  cases hy
  exact ha x (.single hr)

theorem graph_restricted (settings : Settings) : p.Restricted settings where
  declared := by
    intro g hg
    obtain ⟨order, b⟩ := graph_ok_iff.mp hg
    refine ⟨?_, graph_ok_iff.mpr ⟨order, built_permissive_iff b.known |>.mpr b⟩⟩
    rw [b.names_eq, b.order_eq_range h, Order.filterMap_range_getElem?]
  earlier  := by
    intro g hg he
    obtain ⟨order, b⟩ := graph_ok_iff.mp hg
    have hk : p.Known := known_iff_backward h |>.mpr fun r hr =>
      take_subset_take_left _ (Nat.le_succ _) (he r hr)
    exact graph_ok_iff.mpr ⟨order, built_permissive_iff hk |>.mp b⟩
  cyclic   := by
    intro network names hg
    obtain ⟨hd, hk, hn, _, walk, hc, hw⟩ := graph_cyclic hg
    obtain ⟨name, rfl, hr⟩ := hk.circuit h hd hc
    exact ⟨hn, name, hr, perm_singleton.mp hw⟩
  forward  := by
    intro hn hd ⟨r, hr, hb⟩
    exact refused_of_not_known h hn hd fun hk => hb <| known_iff_backward h |>.mp hk r hr
  circuit  := by
    intro hn hd walk hc hl
    refine refused_of_not_known h hn hd fun hk => ?_
    obtain ⟨name, rfl, _⟩ := hk.circuit h hd hc
    exact Nat.lt_irrefl _ hl

end

end Pipeline

-- The first node reads the one after it, which is forbidden here.
def forwardSales : Pipeline :=
  { salesPipeline with allowForwardReferences := false }

-- The same nodes, in an order in which all reads lead back.
def backwardSales : Pipeline :=
  { forwardSales with nodes := [1, 0, 2].filterMap (salesPipeline.nodes[·]?) }

-- Nothing but a read of its own keeps this node from being built.
def selfReading : Pipeline :=
  { forwardSales with nodes := [⟨"a", .node ⟨"a", false, none, none⟩, [], none, none, none⟩] }

theorem graph_restricted_sales : forwardSales.allowForwardReferences = false ∧
    forwardSales.Refused default ∧
    (∃ g, backwardSales.graph default = .ok g ∧ g.nodes.map (·.name) = backwardSales.nodeNames ∧
      backwardSales.permissive.graph default = .ok g) ∧
    ∃ network names, selfReading.graph default = .error (.cyclicDependency network names) ∧
      network = .pipeline "sales" ∧ ∃ name, selfReading.Reads name name ∧ names = [name] := by
  have hf := Pipeline.graph_restricted (p := forwardSales) rfl default
  have hb := Pipeline.graph_restricted (p := backwardSales) rfl default
  have hs := Pipeline.graph_restricted (p := selfReading) rfl default
  have hg : backwardSales.graph default = .ok _ := rfl
  have hc : selfReading.graph default = .error (.cyclicDependency _ _) := rfl
  obtain ⟨hd, hp⟩ := hb.declared _ hg
  refine ⟨rfl, hf.forward (by decide) (by decide) ?_, ⟨_, hg, hd, hp⟩, _, _, hc, hs.cyclic _ _ hc⟩
  have hr : ⟨_, 0, "source", "brz"⟩ ∈ forwardSales.nodeReads :=
    Pipeline.mem_nodeReads.mpr ⟨rfl, by decide⟩
  exact ⟨_, hr, by decide⟩

end Lakehouse
