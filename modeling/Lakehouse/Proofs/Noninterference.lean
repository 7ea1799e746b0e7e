import Lakehouse.Proofs.Compilation
import Lakehouse.Proofs.Configuration
import Lakehouse.Proofs.ReadSide
/-!
What pipelines write is kept apart from the resources. Stacks that differ only in how sinks are
written, in layers and in transformers are refused alike, or have the same graph but for the content
of the configuration files of their pipelines.
-/
namespace Lakehouse

open List Attempt Expansion

variable {c : Context} {changed : Pipeline → Prop} {rs rs' : List Resource} {r r' : Resource}
variable {g g' : NodeGraph} {p p' : Pipeline} {ns : List PipelineNode} {d d' : Declaration}
variable {s s' : Stack}

namespace NodeGraph.SameReads

theorem settings (h : g.SameReads g') : g'.settings = g.settings := by
  rw [h.same]

theorem tasks (h : g.SameReads g') (key : Option String) : g'.tasks key = g.tasks key := by
  refine forall₂_map_eq (fun n n' hn => ?_) h.nodes
  simp only [task, hn.name, hn.feeders, h.settings]

theorem libraries (h : g.SameReads g') : g'.libraries = g.libraries := by
  simp only [NodeGraph.libraries, h.settings]

end NodeGraph.SameReads

theorem NodeGraph.sameReads_refl (g : NodeGraph) : g.SameReads g := by
  have hs : ∀ o : Option TableSink, Option.Rel TableSink.SameReads o o := by
    intro o
    cases o
    case none   => exact .none
    case some s => exact .some ⟨rfl, rfl, rfl⟩
  exact ⟨rfl, forall₂_same.mpr fun n _ => ⟨rfl, rfl, rfl, rfl, hs n.sink⟩⟩

-- The same resource, or the configuration file of a changed pipeline, made of any node graph.
inductive Resource.SameReads (c : Context) (changed : Pipeline → Prop) : Resource → Resource → Prop
  | refl (r : Resource) : SameReads c changed r r
  | config {p : Pipeline} (hp : changed p) (g g' : NodeGraph) :
    SameReads c changed (p.configResource c g) (p.configResource c g')

namespace Resource.SameReads

theorem id (h : r.SameReads c changed r') : r'.id = r.id := by
  cases h
  case refl   => rfl
  case config => rw [Pipeline.configResource_id, Pipeline.configResource_id]

theorem kind (h : r.SameReads c changed r') : r'.kind = r.kind := by
  cases h
  case refl   => rfl
  case config => rw [Pipeline.configResource_kind, Pipeline.configResource_kind]

theorem links (h : r.SameReads c changed r') : r'.links = r.links := by
  cases h
  case refl          => rfl
  case config hp g g' =>
    rw [Pipeline.configResource_links, Pipeline.configResource_links]

end Resource.SameReads

theorem Expansion.permissions_congr {owner owner' : Resource} {field attr : String}
    {controls : List AccessControl} (hi : owner'.id = owner.id)
    (hp : owner'.provider = owner.provider)
    (hb : owner'.deleteBeforeReplace = owner.deleteBeforeReplace) :
    permissions owner' field attr controls = permissions owner field attr controls := by
  simp only [permissions, Resource.auxiliary, hi, hp, hb]

section Pipelines

variable (h : g.SameReads g')
include h

theorem Pipeline.dltResources_sameReads (o : DltOrchestrator) :
    (p.withNodes ns).dltResources c g' o = p.dltResources c g o := by
  simp only [dltResources, dltProperties, h.libraries]
  rfl

theorem Pipeline.job_sameReads (o : JobOrchestrator) :
    (p.withNodes ns).job c g' o = p.job c g o := by
  simp only [job, h.tasks]
  rfl

end Pipelines

theorem Pipeline.configFile_sameReads (hp : changed p) (g g' : NodeGraph) :
    Alike (Forall₂ (Resource.SameReads c changed)) (p.configFile c g) (p.configFile c g') := by
  have hs := configResource_insert (c := c) (p := p) g g'
  have ha : ∀ controls, permissions (p.configResource c g') "workspace_file_path" "path" controls =
      permissions (p.configResource c g) "workspace_file_path" "path" controls :=
    fun _ => permissions_congr (by rw [hs]) (by rw [hs]) (by rw [hs])
  simp only [configFile_eq, ha]
  refine Alike.bind_same fun access => ?_
  exact .ok <| .cons (.config hp g g') <| forall₂_same.mpr fun r _ => .refl r

theorem Pipeline.expandWith_sameReads (hp : changed p) (h : g.SameReads g') :
    Alike (Forall₂ (Resource.SameReads c changed)) (p.expandWith c g)
      ((p.withNodes ns).expandWith c g') := by
  have hf : (p.withNodes ns).configFile c g' = p.configFile c g' := rfl
  rw [expandWith, expandWith, hf, withNodes_orchestrator]
  cases p.orchestrator
  all_goals
    simp only [dltResources_sameReads h, job_sameReads h]
    refine Alike.bind_same fun own => ?_
    refine (configFile_sameReads hp g g').bind fun file file' hf => ?_
    exact .ok <| rel_append (forall₂_same.mpr fun r _ => .refl r) hf

-- The same declaration, or a changed pipeline.
inductive Declaration.SameReads (changed : Pipeline → Prop) : Declaration → Declaration → Prop
  | refl (d : Declaration) : SameReads changed d d
  | pipeline {p : Pipeline} {ns : List PipelineNode} (hp : changed p)
      (h : Forall₂ PipelineNode.SameReads p.nodes ns) :
    SameReads changed (.pipeline p) (.pipeline (p.withNodes ns))

structure Expansion.SameReads (c : Context) (changed : Pipeline → Prop) (x x' : Expansion) : Prop where
  resources : Forall₂ (Resource.SameReads c changed) x.resources x'.resources
  pipelines : Forall₂ NodeGraph.SameReads x.pipelines x'.pipelines

theorem Expansion.sameReads_refl (x : Expansion) : x.SameReads c changed x where
  resources := forall₂_same.mpr fun r _ => .refl r
  pipelines := forall₂_same.mpr fun g _ => g.sameReads_refl

theorem Expansion.ofDeclaration_sameReads (h : d.SameReads changed d') :
    Alike (Expansion.SameReads c changed) (ofDeclaration c d) (ofDeclaration c d') := by
  cases h
  case refl => exact .refl sameReads_refl _
  case pipeline hp h =>
    simp only [ofDeclaration]
    refine (Pipeline.graph_withNodes h c.settings).bind fun g g' hg => ?_
    refine (Pipeline.expandWith_sameReads hp hg).bind fun rs rs' hr => ?_
    have ha : (rs'.forM fun r => checkAddressable r.id) = rs.forM fun r => checkAddressable r.id :=
      forM_congr_forall₂ <| hr.imp fun _ _ h => by rw [h.id]
    simp only [ok_bind, ha]
    exact Alike.bind_same fun _ => .ok ⟨hr, .cons hg .nil⟩

-- Stacks that differ in nothing but how sinks are written, in layers and in transformers.
structure Stack.SameReads (s s' : Stack) : Prop where
  same      : s' = { s with
    resources := { s.resources with pipelines := s'.resources.pipelines } }
  pipelines : Forall₂ Pipeline.SameReads s.resources.pipelines s'.resources.pipelines

-- The pipeline is another one in the second stack.
def Stack.Changes (s s' : Stack) (p : Pipeline) : Prop :=
  ∃ p', (p, p') ∈ s.resources.pipelines.zip s'.resources.pipelines ∧ p ≠ p'

theorem Stack.SameReads.declarations (e : s.SameReads s') :
    Forall₂ (Declaration.SameReads (s.Changes s')) s.resources.declarations
      s'.resources.declarations := by
  have hd : ∀ ds : List Declaration, Forall₂ (Declaration.SameReads (s.Changes s')) ds ds :=
    fun ds => forall₂_same.mpr fun d _ => .refl d
  have hp : Forall₂ (Declaration.SameReads (s.Changes s'))
      (s.resources.pipelines.map .pipeline) (s'.resources.pipelines.map .pipeline) := by
    rw [forall₂_map_left_iff, forall₂_map_right_iff, forall₂_iff_zip]
    refine ⟨e.pipelines.length_eq, fun {p p'} hz => ?_⟩
    have hp := forall₂_zip e.pipelines hz
    by_cases he : p = p'
    case pos => exact he ▸ .refl _
    case neg =>
      rw [show p' = p.withNodes p'.nodes from hp.same]
      exact .pipeline ⟨p', hz, he⟩ hp.nodes
  rw [e.same] at hp ⊢
  exact rel_append (rel_append (hd _) hp) (hd _)

theorem Stack.SameReads.expand (e : s.SameReads s') :
    Alike (Expansion.SameReads s.context (s.Changes s')) s.expand s'.expand := by
  have hs : s'.settings = s.settings := by rw [e.same]
  have hp : s'.providers = s.providers := by rw [e.same]
  have hc : s'.context = s.context := by simp only [context, defaultProvider, hs, hp]
  rw [Stack.expand, Stack.expand, hs, hp, hc]
  refine Alike.bind_same fun providers => ?_
  have hd := e.declarations.imp fun _ _ h => ofDeclaration_sameReads (c := s.context) h
  refine (Alike.mapM hd).bind fun parts parts' hx => .ok ⟨?_, ?_⟩
  · refine rel_append (forall₂_same.mpr fun r _ => .refl r) ?_
    exact rel_flatMap hx fun _ _ h => h.resources
  · exact rel_flatMap hx fun _ _ h => h.pipelines

theorem checkUnique_congr {seen : Dict Kind} (h : Forall₂ (Resource.SameReads c changed) rs rs') :
    checkUnique seen rs' = checkUnique seen rs := by
  induction h generalizing seen
  case nil          => rfl
  case cons hr _ ih => simp only [checkUnique, hr.id, hr.kind, ih]

-- The same resource, or the configuration file of a changed pipeline with other content.
inductive Resource.SameBut (c : Context) (changed : Pipeline → Prop) (r : Resource) : Resource → Prop
  | same : SameBut c changed r r
  | content {p : Pipeline} (hp : changed p) (hi : r.id = p.configId c)
      (hk : r.kind = .workspaceFile) (content : Value) :
    SameBut c changed r
      { r with properties := Dict.insert r.properties "content_base64" content }

theorem Resource.SameReads.sameBut (h : r.SameReads c changed r') : r.SameBut c changed r' := by
  cases h
  case refl => exact .same
  case config p hp g g' =>
    rw [Pipeline.configResource_insert g g']
    exact .content hp (p.configResource_id g) (p.configResource_kind g) _

-- The graphs have the same edges and all else in common, but for the content of the configuration
-- files of changed pipelines and for what the node graphs say about writing.
structure Graph.SameReads (c : Context) (changed : Pipeline → Prop) (g g' : Graph) : Prop where
  same      : g' = { g with resources := g'.resources, pipelines := g'.pipelines }
  edges     : g'.edges = g.edges
  resources : Forall₂ (Resource.SameBut c changed) g.resources g'.resources
  pipelines : Forall₂ NodeGraph.SameReads g.pipelines g'.pipelines

-- The way of writing is of no account to success, to the error, or to the graph.
theorem Stack.compile_alike (e : s.SameReads s') :
    Alike (Graph.SameReads s.context (s.Changes s')) s.compile s'.compile := by
  simp only [Stack.compile]
  refine e.expand.bind fun x x' hx => ?_
  have hl := hx.resources.imp fun _ _ h => And.intro h.id h.links
  rw [checkUnique_congr hx.resources, Resolution.ofResources_congr hl]
  refine Alike.bind_same fun _ => ?_
  refine Alike.bind_same fun res => ?_
  refine .ok ⟨by rw [e.same], rfl, ?_, hx.pipelines⟩
  refine rel_filterMap ?_ (forall₂_same.mpr fun i _ => Eq.refl i)
  rintro i _ rfl
  exact forall₂_getElem? (hx.resources.imp fun _ _ h => h.sameBut) i

-- A pipeline whose second node reads the first one, given how the first one is written.
def rawAndClean (sink : TableSink) (layer : Option String) (transformer : Option Value) : Pipeline :=
  { (default : Pipeline) with
    name   := "p"
    target := some "t"
    nodes  := [
      ⟨"raw", .event ⟨"orders", none, none, none, true⟩, [], some sink, layer, transformer⟩,
      ⟨"clean", .node ⟨"raw", false, none, none⟩, [], none, none, none⟩] }

def onlyPipeline (p : Pipeline) : Stack :=
  { (default : Stack) with resources := { (default : Sections) with pipelines := [p] } }

def appended : Pipeline :=
  rawAndClean { (default : TableSink) with tableName := some "raw" } none none

def merged : Pipeline :=
  rawAndClean { (default : TableSink) with
    tableName := some "raw", mode := some .merge, mergeKeys := ["id"] } (some "bronze")
    (some (.object [("sql", .string "$\x7bresources.unknown.id\x7d")]))

-- What a pipeline expands to on its own, if it is a continuous one that gives nobody access.
def soleNodes (p : Pipeline) : NodeGraph :=
  p.graph (onlyPipeline p).settings |>.toOption.getD default

def solePrimary (p : Pipeline) : Resource :=
  let c := (onlyPipeline p).context
  c.primary p.id .dltPipeline (p.dltProperties c (soleNodes p) default) p.options

def soleExpansion (p : Pipeline) : Expansion where
  resources := [solePrimary p, p.configResource (onlyPipeline p).context (soleNodes p)]
  pipelines := [soleNodes p]

-- The content of the configuration file is of no account to compilation.
theorem compile_isOk_onlyPipeline (hx : (onlyPipeline p).expand = .ok (soleExpansion p))
    (hn : (idsOf (soleExpansion p).resources).Nodup)
    (hr : (Resolution.ofResources
      [solePrimary p, p.bareConfig (onlyPipeline p).context]).toOption.isSome) :
    ∃ g, (onlyPipeline p).compile = .ok g := by
  refine Stack.compile_isOk_of_links hx hn ?_ hr
  exact .cons ⟨rfl, rfl⟩ <| .cons ⟨rfl, Pipeline.configResource_links _⟩ .nil

theorem compile_isOk_appended : ∃ g, (onlyPipeline appended).compile = .ok g :=
  compile_isOk_onlyPipeline rfl (by decide +kernel) (by decide +kernel)

theorem compile_alike_merged : (onlyPipeline appended).SameReads (onlyPipeline merged) ∧
    ∃ g g', (onlyPipeline appended).compile = .ok g ∧ (onlyPipeline merged).compile = .ok g' ∧
      Graph.SameReads (onlyPipeline appended).context
        ((onlyPipeline appended).Changes (onlyPipeline merged)) g g' := by
  have hs : (onlyPipeline appended).SameReads (onlyPipeline merged) := {
    same      := rfl
    pipelines := .cons ⟨rfl, .cons ⟨rfl, rfl, rfl, .some ⟨rfl, rfl, rfl⟩⟩ <|
      .cons ⟨rfl, rfl, rfl, .none⟩ .nil⟩ .nil }
  have ⟨g, hg⟩ := compile_isOk_appended
  have ha := Stack.compile_alike hs
  rw [hg] at ha
  generalize (onlyPipeline merged).compile = x at ha ⊢
  cases ha
  case ok g' h => exact ⟨hs, g, g', hg, rfl, h⟩

end Lakehouse
