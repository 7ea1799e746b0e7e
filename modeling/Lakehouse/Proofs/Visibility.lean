import Lakehouse.Proofs.Fields
import Lakehouse.Proofs.NodeGraph
import Lakehouse.Proofs.Noninterference
import Lakehouse.Proofs.Texts
/-!
What resolution sees of pipelines. All that is said of the nodes goes into a configuration document,
where no placeholder is looked for; only what stands among the properties of the pipeline's primary
resource as well is held against the resources.
-/
namespace Lakehouse

open List Attempt Expansion

variable {c : Context} {s : Stack} {x y : Expansion} {p : Pipeline} {g : NodeGraph}
variable {settings : Settings} {order : List Nat} {n : ResolvedNode} {r : Resource}
variable {rs : List Resource} {d : Declaration} {ids : List String} {t : String}

-- All placeholders of the text name resources.
def Placeholder.Resolved (ids : List String) (t : String) : Prop :=
  ∀ q ∈ inText t, q.resource ∈ ids

open Placeholder

namespace Value

theorem mem_textsOfItems {items : List Value} :
    t ∈ textsOfItems items ↔ ∃ v ∈ items, t ∈ v.texts := by
  induction items
  case nil             => simp [textsOfItems]
  case cons v items ih => simp [textsOfItems, ih]

-- What has a text is neither null nor empty.
theorem not_isEmpty_of_mem_texts {v : Value} (h : t ∈ v.texts) :
    v.isNull = false ∧ v.isEmpty = false := by
  match v with
  | null | bool _ | number _ | array [] | object [] => contradiction
  | string _ | array (_ :: _) | object (_ :: _)     => exact ⟨rfl, rfl⟩

end Value

-- A resource mentions what the placeholders of its properties name.
theorem Resource.mentions_of_mem_texts {q : Placeholder}
    (ht : t ∈ (Value.object r.properties).texts) (hq : q ∈ inText t) : r.Mentions q.resource := by
  obtain ⟨found, hf, he⟩ := exists_mem_scan.mpr ⟨t, ht, hq⟩
  exact .inr <| .inr <| .inr ⟨found, hf, he ▸ rfl⟩

namespace Pipeline

-- What the primary resource has among its properties, as it is written in the pipeline.
def shownTexts (p : Pipeline) : List String :=
  match p.orchestrator with
  | .dlt _ => p.name :: (p.catalog.toList ++ p.target.toList)
  | .job _ => p.name :: p.nodeNames

end Pipeline

namespace NodeGraph

-- What the configuration document says of a node besides its name and what feeds it.
def details (g : NodeGraph) (n : ResolvedNode) : Properties :=
  [("source", n.source.describe g.mode.readContext g.settings)] ++
    entryOf "joins" (if n.joins.isEmpty then none else some (.array (n.joins.map g.joinDocument))) ++
    entryOf "sink" (n.sink.map TableSink.codec.write) ++
    entryOf "layer" (n.layer.map .string) ++
    entryOf "transformer" n.transformer

-- What is said of a node in the configuration document alone. A job names its nodes elsewhere, too.
def hiddenTexts (g : NodeGraph) (n : ResolvedNode) : List String :=
  (if g.mode = .continuous then [n.name] else []) ++ (Value.object (g.details n)).texts

theorem mem_nodeDocument_texts : t ∈ (g.nodeDocument n).texts ↔
    t = n.name ∨ t ∈ n.feeders ∨ t ∈ (Value.object (g.details n)).texts := by
  have he : g.nodeDocument n =
    .object (("name", .string n.name) :: ("upstream", .strings n.feeders) :: g.details n) := rfl
  simp [he, Value.texts, Value.textsOfFields, Value.texts_strings]

theorem mem_document_texts : t ∈ g.document.texts ↔
    t = g.name ∨ t = g.mode.word ∨ ∃ n ∈ g.nodes, t ∈ (g.nodeDocument n).texts := by
  simp [document, Value.texts, Value.textsOfFields, Value.mem_textsOfItems]

theorem resolved_word (m : Mode) : Resolved ids m.word := by
  cases m <;> exact fun _ h => nomatch h

end NodeGraph

namespace Declaration

variable {e : String × Value}

theorem mem_dropEmpty {keys : List String} {ps : Properties} (he : e ∈ ps) (ht : t ∈ e.2.texts) :
    e ∈ dropEmpty keys ps :=
  mem_dropEmpty_iff.mpr ⟨he, fun _ => (Value.not_isEmpty_of_mem_texts ht).right⟩

theorem mem_properties {α : Type} {codec : Codec α} {a : α} {without : List String}
    (he : e ∈ codec.properties a) (hk : e.1 ∉ authoringKeys ++ without) (ht : t ∈ e.2.texts) :
    e ∈ properties codec a without :=
  mem_properties_iff.mpr ⟨he, hk, (Value.not_isEmpty_of_mem_texts ht).left⟩

end Declaration

namespace Job

variable {j : Job}

theorem mem_texts_of_mem_codec {key : String} {v : Value} (hm : (key, v) ∈ codec.properties j)
    (hk : key ∉ Declaration.authoringKeys ++ ["clusters", "access_controls"]) (ht : t ∈ v.texts) :
    t ∈ (Value.object j.properties).texts := by
  refine Value.mem_textsOfFields.mpr ⟨(key, v), Declaration.mem_dropEmpty ?_ ht, ht⟩
  exact mem_append_left _ <| Declaration.mem_properties hm hk ht

theorem mem_texts_of_task {task : Task} (hm : task ∈ j.tasks)
    (ht : t ∈ (Task.codec.write task).texts) : t ∈ (Value.object j.properties).texts := by
  refine mem_texts_of_mem_codec (j.codec_under.left _ |>.mpr rfl) (by decide) ?_
  exact Value.mem_textsOfItems.mpr ⟨_, mem_map_of_mem hm, ht⟩

theorem mem_texts_of_parameter {parameter : JobParameter} (hp : parameter ∈ j.parameters) :
    parameter.value ∈ (Value.object j.properties).texts := by
  have ht : parameter.value ∈ (JobParameter.codec.write parameter).texts :=
    Value.mem_textsOfFields.mpr ⟨("default", .string _), .tail _ <| .head _, mem_singleton_self _⟩
  refine mem_texts_of_mem_codec (j.codec_under.right.left _ |>.mpr rfl) (by decide) ?_
  exact Value.mem_textsOfItems.mpr ⟨_, mem_map_of_mem hp, ht⟩

end Job

-- A task has the name of its node as a parameter.
theorem NodeGraph.mem_texts_task (key : Option String) :
    n.name ∈ (Task.codec.write (g.task key n)).texts := by
  let notebook : NotebookTask := ⟨g.settings.jobRunner, [("node_name", n.name)]⟩
  have hm : ("notebook_task", NotebookTask.codec.write notebook) ∈
      Task.codec.properties (g.task key n) := by
    simp [Task.codec, Codec.properties, Codec.record, Fields.write, Field.write, Value.object?,
      Field.sparse, Field.required, task, Codec.optional, Value.ofOption, notebook]
  have hn : n.name ∈ (NotebookTask.codec.write notebook).texts := by
    simp [NotebookTask.codec, Codec.record, Fields.write, Field.write, Field.required,
      Field.sparseDict, Value.texts, Value.textsOfFields, Codec.dict, Dict.mapValues, Codec.text,
      notebook]
  exact Value.mem_textsOfFields.mpr ⟨_, hm, hn⟩

namespace Pipeline

theorem mem_texts_dltProperties {o : DltOrchestrator}
    (ht : t = p.name ∨ t ∈ p.catalog ∨ t ∈ p.target) :
    t ∈ (Value.object (p.dltProperties c g o)).texts := by
  have hs : t ∈ (Value.string t).texts := mem_singleton_self t
  have hm : ∀ key, key ≠ "configuration" → key ≠ "libraries" →
      (key, .string t) ∈ Declaration.properties DltOrchestrator.codec o [] ++
        NodeGraph.entryOf "catalog" (p.catalog.map .string) ++
        NodeGraph.entryOf "target" (p.target.map .string) →
      t ∈ (Value.object (p.dltProperties c g o)).texts := by
    intro key hc hl hm
    refine Value.mem_textsOfFields.mpr ⟨(key, .string t), mem_cons_of_mem _ ?_, hs⟩
    apply Declaration.mem_dropEmpty _ hs
    exact Dict.mem_insert_of_ne (Dict.mem_insert_of_ne hm hc) hl
  obtain rfl | hc | hc := ht
  · exact mem_cons_self
  · exact hm "catalog" (by decide) (by decide) <| by simp [NodeGraph.entryOf, Option.mem_def.mp hc]
  · exact hm "target" (by decide) (by decide) <| by simp [NodeGraph.entryOf, Option.mem_def.mp hc]

namespace Built

theorem names_perm (b : p.Built settings order g) : g.nodes.map (·.name) ~ p.nodeNames :=
  b.names_eq ▸ (names_pairs b.distinct b.known |>.sort_ok b.sort |>.left)

theorem mem_texts_primary (b : p.Built settings order g) (ht : t ∈ p.shownTexts) :
    t ∈ (Value.object (p.primaryProperties c g)).texts := by
  cases ho : p.orchestrator <;> simp only [shownTexts, primaryProperties, ho, mem_cons] at ht ⊢
  case dlt => exact mem_texts_dltProperties <| by simpa using ht
  case job o =>
    obtain rfl | ht := ht
    · have hm : (⟨"pipeline_name", p.name⟩ : JobParameter) ∈ (p.job c g o).parameters := mem_cons_self
      exact Job.mem_texts_of_parameter hm
    · obtain ⟨n, hn, rfl⟩ := mem_map.mp <| b.names_perm.mem_iff.mpr ht
      exact Job.mem_texts_of_task (mem_map_of_mem hn) (g.mem_texts_task _)

-- Where all that is shown names resources, the hidden texts decide on the document.
theorem document_resolved_iff (b : p.Built settings order g)
    (hs : ∀ t ∈ p.shownTexts, Resolved ids t) : (∀ t ∈ g.document.texts, Resolved ids t) ↔
      ∀ n ∈ g.nodes, ∀ t ∈ g.hiddenTexts n, Resolved ids t := by
  constructor
  case mp =>
    intro h n hn t ht
    apply h t <| NodeGraph.mem_document_texts.mpr <| .inr <| .inr ⟨n, hn, ?_⟩
    apply NodeGraph.mem_nodeDocument_texts.mpr
    cases mem_append.mp ht
    case inr ht => exact .inr <| .inr ht
    case inl ht =>
      split at ht
      case isTrue  => exact .inl <| mem_singleton.mp ht
      case isFalse => contradiction
  case mpr =>
    intro h
    have hn : ∀ n ∈ g.nodes, Resolved ids n.name := by
      intro n hn
      cases ho : p.orchestrator
      case dlt => exact h n hn _ <| by simp [NodeGraph.hiddenTexts, b.mode, ho, Orchestrator.mode]
      case job =>
        have hm : n.name ∈ p.nodeNames := b.names_perm.mem_iff.mp <| mem_map_of_mem hn
        exact hs _ <| by simp [shownTexts, ho, hm]
    intro t ht
    obtain rfl | rfl | ⟨n, hm, ht⟩ := NodeGraph.mem_document_texts.mp ht
    · exact b.name ▸ hs _ (by cases ho : p.orchestrator <;> simp [shownTexts, ho])
    · exact NodeGraph.resolved_word _
    · obtain rfl | hf | ht := NodeGraph.mem_nodeDocument_texts.mp ht
      · exact hn n hm
      · have hk := b.ordered.mem (mem_map_of_mem hm) (b.reads hm hf)
        obtain ⟨m, hm, rfl⟩ := mem_map.mp hk
        exact hn m hm
      · exact h n hm t <| mem_append_right _ ht

end Built

end Pipeline

-- How a pipeline takes part in an expansion: with its node graph, and with all its resources.
structure Pipeline.Part (s : Stack) (x : Expansion) (p : Pipeline) (g : NodeGraph) : Prop where
  graph     : p.graph s.settings = .ok g
  listed    : g ∈ x.pipelines
  resources : ∃ rs, p.expandWith s.context g = .ok rs ∧ rs ⊆ x.resources

theorem Expansion.ofDeclaration_pipeline (h : ofDeclaration c (.pipeline p) = .ok y) :
    ∃ g, p.graph c.settings = .ok g ∧ p.expandWith c g = .ok y.resources ∧ y.pipelines = [g] := by
  simp only [ofDeclaration, bind_ok_iff] at h
  obtain ⟨g, hg, _, hr, _, hx, _, _, h⟩ := h
  cases hx
  cases h
  exact ⟨g, hg, hr, rfl⟩

theorem Expansion.ofDeclaration_pipelines (h : ofDeclaration c d = .ok y) (hg : g ∈ y.pipelines) :
    ∃ p, d = .pipeline p ∧ p.graph c.settings = .ok g ∧ p.expandWith c g = .ok y.resources := by
  cases d
  case pipeline p =>
    obtain ⟨g', hp, hr, he⟩ := ofDeclaration_pipeline h
    cases mem_singleton.mp <| he ▸ hg
    exact ⟨p, rfl, hp, hr⟩
  all_goals
    simp only [ofDeclaration, bind_ok_iff] at h
    obtain ⟨_, _, _, hx, _, _, h⟩ := h
    cases hx
    cases h
    contradiction

namespace Stack

theorem mem_declarations_pipeline :
    .pipeline p ∈ s.resources.declarations ↔ p ∈ s.resources.pipelines := by
  simp [Sections.declarations]

theorem exists_pipeline_part (hx : s.expand = .ok x) (hp : p ∈ s.resources.pipelines) :
    ∃ g, p.Part s x g := by
  obtain ⟨_, he, hr, hm⟩ := exists_part hx <| mem_declarations_pipeline.mpr hp
  obtain ⟨g, hg, hw, hl⟩ := ofDeclaration_pipeline he
  exact ⟨g, hg, hm <| hl ▸ mem_singleton_self g, _, hw, hr⟩

theorem exists_pipeline_of_part (hx : s.expand = .ok x) (hg : g ∈ x.pipelines) :
    ∃ p ∈ s.resources.pipelines, p.Part s x g := by
  obtain ⟨_, _, h⟩ := bind_ok_iff.mp hx
  obtain ⟨parts, hd, h⟩ := bind_ok_iff.mp h
  cases h
  obtain ⟨y, hy, hm⟩ := mem_flatMap.mp hg
  obtain ⟨d, hs, he⟩ := exists_of_mem_mapM hd hy
  obtain ⟨p, rfl, hp, hr⟩ := ofDeclaration_pipelines he hm
  refine ⟨p, mem_declarations_pipeline.mp hs, hp, hg, _, hr, fun r h => ?_⟩
  exact mem_append_right _ <| mem_flatMap.mpr ⟨y, hy, h⟩

end Stack

theorem Pipeline.Part.primary_mem (h : p.Part s x g) :
    s.context.primary p.id p.primaryKind (p.primaryProperties s.context g) p.options ∈
      x.resources := by
  obtain ⟨_, he, hs⟩ := h.resources
  exact hs <| expandWith_primary he

-- What is shown of a pipeline is mentioned by one of the resources.
theorem Pipeline.Part.mentions (h : p.Part s x g) (ht : t ∈ p.shownTexts) {q : Placeholder}
    (hq : q ∈ inText t) : ∃ r ∈ x.resources, r.Mentions q.resource := by
  obtain ⟨order, b⟩ := graph_ok_iff.mp h.graph
  exact ⟨_, h.primary_mem, Resource.mentions_of_mem_texts (b.mem_texts_primary ht) hq⟩

-- Where a stack compiles, the placeholders in the shown texts of its pipelines name resources, and
-- those in a configuration document do so exactly if those in its hidden texts do. A stack with a
-- placeholder in a shown text that names no resource is refused for the first link that leads nowhere.
theorem Stack.pipelines_resolved (s : Stack) :
    (∀ g, s.compile = .ok g → ∀ ng ∈ g.pipelines, ∃ p ∈ s.resources.pipelines,
      p.graph s.settings = .ok ng ∧ (∀ t ∈ p.shownTexts, Resolved (idsOf g.resources) t) ∧
        ((∀ t ∈ ng.document.texts, Resolved (idsOf g.resources) t) ↔
          ∀ n ∈ ng.nodes, ∀ t ∈ ng.hiddenTexts n, Resolved (idsOf g.resources) t)) ∧
    (∀ x, s.expand = .ok x → (idsOf x.resources).Nodup →
      ∀ p ∈ s.resources.pipelines, ∀ t ∈ p.shownTexts, ¬Resolved (idsOf x.resources) t →
        ∃ r l, FirstUnsound x.resources r l ∧ s.compile = .error (l.refusal r)) := by
  refine ⟨fun g h ng hg => ?compiled, fun x hx hn p hp t ht hr => ?refused⟩
  case compiled =>
    obtain ⟨x, order, c⟩ := compile_compiled h
    obtain ⟨p, hp, part⟩ := exists_pipeline_of_part c.expand (c.pipelines ▸ hg)
    obtain ⟨_, b⟩ := Pipeline.graph_ok_iff.mp part.graph
    have hs : ∀ t ∈ p.shownTexts, Resolved (idsOf g.resources) t := by
      intro t ht q hq
      obtain ⟨r, hr, hm⟩ := part.mentions ht hq
      exact c.mem_of_mentions (c.perm.mem_iff.mpr hr) hm |>.left
    exact ⟨p, hp, part.graph, hs, b.document_resolved_iff hs⟩
  case refused =>
    obtain ⟨g, part⟩ := exists_pipeline_part hx hp
    have hs : ¬Resolution.AllSound x.resources := by
      refine fun hs => hr fun q hq => ?_
      obtain ⟨r, hr, hm⟩ := part.mentions ht hq
      obtain ⟨l, hl, he⟩ := Resource.mentions_iff.mp hm
      exact he ▸ (hs r hr l hl).left
    obtain ⟨r, l, hf, he⟩ := Resolution.ofResources_unsound hn hs
    exact ⟨r, l, hf, by simp [compile, hx, checkUnique_of_nodup hn, he]⟩

-- A pipeline with one node, which reads a table.
def readsTable (catalog : Option String) (table : String) : Pipeline :=
  { (default : Pipeline) with
    name    := "p"
    catalog := catalog
    nodes   := [
      ⟨"n", .table { (default : TableSource) with tableName := table }, [], none, none, none⟩] }

-- The same placeholder, of a resource that is not there, once in the name of the table and once in the
-- catalog of the pipeline.
def unknownTable : Pipeline :=
  readsTable none "$\x7bresources.nope.name\x7d"

def unknownCatalog : Pipeline :=
  readsTable (some "$\x7bresources.nope.name\x7d") "t"

theorem expand_unknownTable : (onlyPipeline unknownTable).expand = .ok (soleExpansion unknownTable) :=
  rfl

theorem compile_isOk_unknownTable : ∃ g, (onlyPipeline unknownTable).compile = .ok g :=
  compile_isOk_onlyPipeline expand_unknownTable (by decide +kernel) (by decide +kernel)

theorem pipelines_resolved_unknown :
    (∃ g, (onlyPipeline unknownTable).compile = .ok g ∧ ∀ ng ∈ g.pipelines,
      (∀ t ∈ unknownTable.shownTexts, Resolved (idsOf g.resources) t) ∧
        ((∀ t ∈ ng.document.texts, Resolved (idsOf g.resources) t) ↔
          ∀ n ∈ ng.nodes, ∀ t ∈ ng.hiddenTexts n, Resolved (idsOf g.resources) t)) ∧
    ∃ x r l, (onlyPipeline unknownCatalog).expand = .ok x ∧ FirstUnsound x.resources r l ∧
      (onlyPipeline unknownCatalog).compile = .error (l.refusal r) := by
  constructor
  case left =>
    obtain ⟨g, h⟩ := compile_isOk_unknownTable
    refine ⟨g, h, fun ng hg => ?_⟩
    obtain ⟨p, hp, _, hr⟩ := (Stack.pipelines_resolved _).left g h ng hg
    exact mem_singleton.mp hp ▸ hr
  case right =>
    have hx : (onlyPipeline unknownCatalog).expand = .ok (soleExpansion unknownCatalog) := rfl
    have hr : ¬Resolved (idsOf (soleExpansion unknownCatalog).resources)
        "$\x7bresources.nope.name\x7d" := fun h =>
      absurd (h ⟨"nope", some "name"⟩ (by decide +kernel)) (by decide +kernel)
    obtain ⟨r, l, h⟩ := (Stack.pipelines_resolved _).right _ hx (by decide +kernel) unknownCatalog
      (mem_singleton_self _) _ (by decide +kernel) hr
    exact ⟨_, r, l, hx, h⟩

-- A document that refers to a resource that is not there.
theorem document_unresolved : ∃ g, (onlyPipeline unknownTable).compile = .ok g ∧
    ∃ ng ∈ g.pipelines, ∃ t ∈ ng.document.texts, ¬Resolved (idsOf g.resources) t := by
  obtain ⟨g, h⟩ := compile_isOk_unknownTable
  obtain ⟨x, order, c⟩ := Stack.compile_compiled h
  cases c.expand.symm.trans expand_unknownTable
  refine ⟨g, h, soleNodes unknownTable, c.pipelines ▸ mem_singleton_self _,
    "$\x7bresources.nope.name\x7d", by decide +kernel, fun hr => ?_⟩
  have hm := hr ⟨"nope", some "name"⟩ (by decide +kernel)
  exact absurd (c.mem_idsOf_iff.mp hm) (by decide +kernel)

end Lakehouse
