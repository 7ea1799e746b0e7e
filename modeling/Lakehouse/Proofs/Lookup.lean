import Lakehouse.Proofs.Compilation
import Lakehouse.Proofs.Visibility
/-!
Finding pipelines and nodes by their names. Nothing compares the names of pipelines, but the path of a
configuration file is made of the name, and so is the id of the file: two pipelines with one name are
two files with one id, whatever runs the pipelines and whatever their own ids are.
-/
namespace Lakehouse

open List Attempt

variable {s : Stack} {g : Graph} {c : Context} {d : Declaration} {x y : Expansion}
variable {ps qs : List Pipeline}

def Declaration.pipeline? : Declaration → Option Pipeline
  | pipeline p => some p
  | _          => none

namespace Expansion

-- The node graphs are those of the pipelines, and each pipeline has its configuration file.
structure Lists (x : Expansion) (c : Context) (ps : List Pipeline) : Prop where
  graphs : Forall₂ (fun p ng => p.graph c.settings = .ok ng) ps x.pipelines
  files  : ps.map (·.configId c) <+ idsOf x.resources

theorem Lists.append (h : x.Lists c ps) (h' : y.Lists c qs) :
    Lists ⟨x.resources ++ y.resources, x.pipelines ++ y.pipelines⟩ c (ps ++ qs) where
  graphs := rel_append h.graphs h'.graphs
  files  := by simpa only [idsOf, map_append] using h.files.append h'.files

theorem ofDeclaration_lists (h : ofDeclaration c d = .ok y) : y.Lists c d.pipeline?.toList := by
  cases d
  case pipeline p =>
    obtain ⟨ng, hg, hr, hp⟩ := ofDeclaration_pipeline h
    obtain ⟨_, hf⟩ := Pipeline.expandWith_configFile hr
    exact ⟨hp ▸ .cons hg .nil, singleton_sublist.mpr <| mem_map.mpr ⟨_, hf, rfl⟩⟩
  all_goals
    have hp : y.pipelines = [] := by
      refine eq_nil_iff_forall_not_mem.mpr fun ng hg => ?_
      obtain ⟨_, hd, _⟩ := ofDeclaration_pipelines h hg
      contradiction
    exact ⟨hp ▸ .nil, nil_sublist _⟩

theorem Lists.flatten {ds : List Declaration} {parts : List Expansion}
    (h : Forall₂ (fun d part => ofDeclaration c d = .ok part) ds parts) :
    Lists ⟨parts.flatMap (·.resources), parts.flatMap (·.pipelines)⟩ c
      (ds.flatMap (·.pipeline?.toList)) := by
  induction h
  case nil             => exact ⟨.nil, .slnil⟩
  case cons d part _ _ hd _ ih => exact ofDeclaration_lists hd |>.append ih

-- Where ids are distinct, so are the names of the pipelines.
theorem Lists.nodup_names (h : x.Lists c ps) (hn : (idsOf x.resources).Nodup) :
    (ps.map (·.name)).Nodup := by
  have hf : ps.map (·.configId c) = (ps.map (·.name)).map fun name =>
      Ident.derive none "workspace-file" s!"{c.settings.workspaceRoot}pipelines/{name}.json" := by
    simp [Pipeline.configId, Pipeline.configPath]
  exact Nodup.of_map _ <| hf ▸ hn.sublist h.files

end Expansion

theorem Stack.expand_lists (h : s.expand = .ok x) : x.Lists s.context s.resources.pipelines := by
  obtain ⟨providers, _, h⟩ := bind_ok_iff.mp h
  obtain ⟨parts, hd, hx⟩ := bind_ok_iff.mp h
  cases hx
  have hl := Expansion.Lists.flatten <| mapM_ok_iff.mp hd
  have hp : s.resources.declarations.flatMap (·.pipeline?.toList) = s.resources.pipelines := by
    rw [← filterMap_eq_flatMap_toList]
    simp [Sections.declarations, Declaration.pipeline?, Function.comp_def]
  rw [hp] at hl
  refine ⟨hl.graphs, hl.files.trans ?_⟩
  simp [idsOf]

-- The pipelines of a graph are those of the stack, and each is found under its name, as each of its
-- nodes is.
structure Graph.Finds (g : Graph) (s : Stack) : Prop where
  declared  : Forall₂ (fun p ng => p.graph s.settings = .ok ng ∧ ng.name = p.name)
    s.resources.pipelines g.pipelines
  distinct  : (g.pipelines.map (·.name)).Nodup
  pipelines : ∀ ng ∈ g.pipelines, g.pipeline? ng.name = some ng
  nodes     : ∀ ng ∈ g.pipelines,
    (ng.nodes.map (·.name)).Nodup ∧ ∀ n ∈ ng.nodes, ng.node? n.name = some n

theorem Stack.compile_finds (h : s.compile = .ok g) : g.Finds s := by
  obtain ⟨x, order, c⟩ := compile_compiled h
  have hl := expand_lists c.expand
  have hd : Forall₂ (fun p ng => p.graph s.settings = .ok ng ∧ ng.name = p.name)
      s.resources.pipelines g.pipelines := by
    rw [c.pipelines]
    refine hl.graphs.imp fun p ng hg => ⟨hg, ?_⟩
    obtain ⟨_, b⟩ := Pipeline.graph_ok_iff.mp hg
    exact b.name
  have hn : (g.pipelines.map (·.name)).Nodup := by
    rw [forall₂_map_eq (fun _ _ h => h.right) hd]
    exact hl.nodup_names c.nodup
  exact {
    declared  := hd
    distinct  := hn
    pipelines := fun ng hg => find?_key_eq_some_iff hn |>.mpr ⟨hg, rfl⟩
    nodes     := by
      intro ng hg
      obtain ⟨p, _, hg, _⟩ := exists_of_forall₂_right hd hg
      obtain ⟨_, b⟩ := Pipeline.graph_ok_iff.mp hg
      exact ⟨b.nodup_names, fun n hm => find?_key_eq_some_iff b.nodup_names |>.mpr ⟨hm, rfl⟩⟩
  }

-- A continuous pipeline and one that is run as a job, both with an id of their own.
def renamedPipelines : Stack :=
  let node : PipelineNode :=
    ⟨"n", .event ⟨"orders", none, none, none, true⟩, [], none, none, none⟩
  { (default : Stack) with
    resources := { (default : Sections) with
      pipelines := [
        { (default : Pipeline) with name := "a", resourceName := "x", nodes := [node] },
        { (default : Pipeline) with
          name := "b", resourceName := "y", nodes := [node], orchestrator := .job default }] } }

theorem compile_finds_renamedPipelines :
    ∃ g, renamedPipelines.compile = .ok g ∧ g.Finds renamedPipelines := by
  let x := renamedPipelines.expand.toOption.getD default
  have hx : renamedPipelines.expand = .ok x := eq_ok_of_isSome (by decide +kernel)
  have ⟨g, hg⟩ := Stack.compile_isOk_of_bare hx rfl (by decide +kernel) (by decide +kernel)
  exact ⟨g, hg, Stack.compile_finds hg⟩

end Lakehouse
