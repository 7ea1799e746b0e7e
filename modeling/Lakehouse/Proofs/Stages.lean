import Lakehouse.Proofs.Compilation
import Lakehouse.Proofs.Orchestration
import Lakehouse.Proofs.Visibility
/-!
Stages of failure. An error tells its stage by its form alone, but two forms arise in both stages: the
node graph of a pipeline and the tasks of a job are put in order while the stack is expanded, with the
errors that the resources are refused by after it. Exactly these are reported for the wrong stage.
-/
namespace Lakehouse

open List Attempt

variable {s : Stack} {x : Expansion} {c : Context} {p : Pipeline} {j : Job} {g : NodeGraph}
variable {settings : Settings} {e : CompileError} {owner : Resource} {field attr : String}

-- Where compilation fails: in the expansion, or after it.
inductive Stack.FailsAt (s : Stack) (e : CompileError) : Stage → Prop where
  | expanded (h : s.expand = .error e) : FailsAt s e .expanded
  | repeated {x : Expansion} (hx : s.expand = .ok x) (h : checkUnique [] x.resources = .error e) :
    FailsAt s e .dependenciesResolved
  | unresolved {x : Expansion} (hx : s.expand = .ok x) (hu : checkUnique [] x.resources = .ok ())
    (h : Resolution.ofResources x.resources = .error e) : FailsAt s e .dependenciesResolved

-- The stage that the error tells is the one that fails.
structure Stack.Reports (s : Stack) (e : CompileError) : Prop where
  expanded             : e.stage = .expanded ↔ s.FailsAt e .expanded
  dependenciesResolved : e.stage = .dependenciesResolved ↔ s.FailsAt e .dependenciesResolved

theorem Stack.compile_error_iff : s.compile = .error e ↔ ∃ stage, s.FailsAt e stage := by
  simp only [compile, bind_error_iff, pure_eq_ok, reduceCtorEq, and_false, exists_false, or_false]
  constructor
  case mp =>
    rintro (h | ⟨x, hx, h | ⟨_, hu, h⟩⟩)
    · exact ⟨_, .expanded h⟩
    · exact ⟨_, .repeated hx h⟩
    · exact ⟨_, .unresolved hx hu h⟩
  case mpr =>
    rintro ⟨_, h | ⟨hx, h⟩ | ⟨hx, hu, h⟩⟩
    · exact .inl h
    · exact .inr ⟨_, hx, .inl h⟩
    · exact .inr ⟨_, hx, .inr ⟨_, hu, h⟩⟩

-- What keeps the nodes of a pipeline from being put in order, with the error that tells it.
inductive Pipeline.Tangle (p : Pipeline) : CompileError → Prop where
  | read {i : Nat} {n : PipelineNode} {path name : String} (hn : p.nodes[i]? = some n)
    (hr : (path, name) ∈ n.reads) (ha : ¬p.Allows i name) :
    Tangle p (.unresolvedReference p.name s!"nodes.{n.name}.{path}.node_name" name)
  | circuit {cycle : List String} (h : Encircles p.Reads p.nodeNames cycle) :
    Tangle p (.cyclicDependency (.pipeline p.name) cycle)

-- The same for the tasks of a job.
inductive Job.Tangle (j : Job) : CompileError → Prop where
  | circuit {cycle : List String} (h : Encircles j.Waits j.taskKeys cycle) :
    Tangle j (.cyclicDependency (.tasks j.id) cycle)

def Stack.Tangle (s : Stack) (e : CompileError) : Prop :=
  (∃ p ∈ s.resources.pipelines, p.Tangle e) ∨ ∃ j ∈ s.resources.jobs, j.Tangle e

def CompileError.IsEarly (e : CompileError) : Prop :=
  e.stage = .expanded

-- An early error other than that of an id which cannot be addressed. That one comes from the expansion of
-- the stack, and from nothing that is expanded within it.
structure CompileError.IsInner (e : CompileError) : Prop where
  early       : e.IsEarly
  addressable : ∀ id, e ≠ .invalidDeclaration id .notAddressable

open CompileError

theorem CompileError.IsInner.flaw {id : String} {flaw : Flaw} (h : flaw ≠ .notAddressable) :
    IsInner (.invalidDeclaration id flaw) :=
  ⟨rfl, fun _ he => h (CompileError.invalidDeclaration.inj he).right⟩

theorem CompileError.IsInner.duplicateNode {pipeline node : String} :
    IsInner (.duplicateNode pipeline node) :=
  ⟨rfl, by simp⟩

theorem CompileError.IsInner.unreadableSink {pipeline node : String} {flaw : SinkFlaw} :
    IsInner (.unreadableSink pipeline node flaw) :=
  ⟨rfl, by simp⟩

namespace Expansion

theorem checkAddressable_early {id : String} : FailsOnly IsEarly (checkAddressable id) :=
  .ite .ok (.error rfl)

theorem provider_early {name : String} {p : Provider} :
    FailsOnly IsEarly (provider settings name p) :=
  .bind checkAddressable_early fun _ _ => .ok

theorem withPermissions_inner {controls : List AccessControl} : FailsOnly IsInner
    (do return owner :: (← permissions owner field attr controls) :
      Except CompileError (List Resource)) := by
  intro e h
  obtain ⟨_, rfl⟩ := withPermissions_error h
  exact .flaw (by simp)

theorem checkGrants_inner {id : String} {gs : List Grant} :
    FailsOnly IsInner (checkGrants id gs) := by
  rw [checkGrants]
  split
  case h_1 => exact .error <| .flaw (by simp)
  case h_2 => exact .ok

theorem withGrants_inner {gs : List Grant} : FailsOnly IsInner (withGrants owner field attr gs) :=
  .bind (.ite .ok <| .bind checkGrants_inner fun _ _ => .ok) fun _ _ => .ok

end Expansion

open Expansion

theorem Table.expand_inner {catalog schema : Parent} {t : Table} :
    FailsOnly IsInner (t.expand c catalog schema) :=
  .ite (.error <| .flaw (by simp)) withGrants_inner

theorem Volume.expand_inner {catalog schema : Parent} {v : Volume} :
    FailsOnly IsInner (v.expand c catalog schema) :=
  .ite (.error <| .flaw (by simp)) withGrants_inner

theorem Schema.expand_inner {catalog : Parent} {y : Schema} :
    FailsOnly IsInner (y.expand c catalog) := by
  refine .bind withGrants_inner fun _ _ => ?_
  refine .bind (.mapM fun _ _ => Table.expand_inner) fun _ _ => ?_
  exact .bind (.mapM fun _ _ => Volume.expand_inner) fun _ _ => .ok

theorem Catalog.expand_inner {d : Catalog} : FailsOnly IsInner (d.expand c) := by
  refine .ite (.error <| .flaw (by simp)) ?_
  refine .bind withGrants_inner fun _ _ => ?_
  exact .bind (.mapM fun _ _ => Schema.expand_inner) fun _ _ => .ok

theorem SqlWarehouse.expand_inner {d : SqlWarehouse} : FailsOnly IsInner (d.expand c) := by
  rw [expand]
  split
  case h_1 flaw hf =>
    refine .error <| .flaw ?_
    rintro rfl
    simp only [flaw?] at hf
    repeat' split at hf
    all_goals cases hf
  case h_2 => exact withPermissions_inner

theorem WorkspaceFile.expand_inner {d : WorkspaceFile} : FailsOnly IsInner (d.expand c) :=
  .ite (.error <| .flaw (by simp)) <| .ite (.error <| .flaw (by simp)) withPermissions_inner

-- An error of a job is an inner one, or tells a circuit of its tasks.
theorem Job.check_tangle : FailsOnly (fun e => e.IsInner ∨ j.Tangle e) j.check := by
  intro e h
  obtain ⟨_, flaw, hf, rfl⟩ | ⟨_, _, hc, rfl⟩ := check_error h
  · exact .inl <| .flaw fun hn => flaw?_ne_notAddressable (hn ▸ hf)
  · exact .inr <| .circuit hc

theorem Job.expand_tangle : FailsOnly (fun e => e.IsInner ∨ j.Tangle e) (j.expand c) :=
  .bind check_tangle fun _ _ => withPermissions_inner.mono fun _ => .inl

namespace Pipeline

theorem checkNames_inner {seen : List String} {ns : List PipelineNode} :
    FailsOnly IsInner (p.checkNames seen ns) := by
  induction ns generalizing seen
  case nil          => exact .ok
  case cons n ns ih => exact .ite (.error <| .flaw (by simp)) <| .ite (.error .duplicateNode) ih

theorem feeders_tangle {i : Nat} {n : PipelineNode} (hn : p.nodes[i]? = some n) :
    FailsOnly p.Tangle (p.feeders n i) := by
  intro e h
  obtain ⟨path, name, hr, ha, rfl⟩ := feeders_error h
  exact .read hn hr ha

theorem nodeOrder_tangle (hn : p.nodeNames.Nodup) (hk : p.Known) :
    FailsOnly p.Tangle (p.nodeOrder p.feederPlaces) := by
  intro e h
  simp only [nodeOrder, ← pairs.eq_1] at h
  split at h <;> cases h
  case h_2 cycle hs =>
    have hl : p.nodes.length = p.nodeNames.length := by simp [nodeNames]
    have hc : p.names cycle = cycle.filterMap (p.nodeNames[·]?) := by simp [names, nodeNames]
    exact .circuit <| hc ▸ (names_pairs hn hk).sort_error (hl ▸ hs)

theorem resolveSource_inner {d : DataSource} : FailsOnly IsInner (p.resolveSource settings d) := by
  cases d
  case event => exact .ok
  case table => exact .ok
  case node =>
    simp only [resolveSource, sourceOfNode]
    split
    case h_1 => exact .error .unreadableSink
    case h_2 =>
      split
      case h_1 => exact .ok
      case h_2 => exact .error .unreadableSink

theorem resolveNode_inner {n : PipelineNode} {feeders : List Nat} :
    FailsOnly IsInner (p.resolveNode settings n feeders) := by
  refine .bind (.mapM fun _ _ => .bind resolveSource_inner fun _ _ => .ok) fun _ _ => ?_
  exact .bind resolveSource_inner fun _ _ => .ok

-- An error of a node graph is an inner one, or tells what its nodes are tangled in.
theorem graph_tangle : FailsOnly (fun e => e.IsInner ∨ p.Tangle e) (p.graph settings) := by
  refine .bind (checkNames_inner.mono fun _ => .inl) fun _ hc => ?_
  refine .bind (.mono (.mapM fun (n, i) hm => ?_) fun _ => .inr) fun places hp => ?_
  · exact feeders_tangle <| mk_mem_zipIdx_iff_getElem?.mp hm
  · obtain ⟨_, hd, _⟩ := checkNames_ok_iff.mp hc
    obtain ⟨hk, rfl⟩ := allFeeders_ok_iff.mp hp
    refine .bind ((nodeOrder_tangle hd hk).mono fun _ => .inr) fun _ _ => ?_
    exact .bind (.mapM fun _ _ => resolveNode_inner.mono fun _ => .inl) fun _ _ => .ok

-- The tasks of a node graph are not tangled.
theorem expandWith_inner (hg : p.graph settings = .ok g) :
    FailsOnly IsInner (p.expandWith c g) := by
  obtain ⟨order, b⟩ := graph_ok_iff.mp hg
  rw [expandWith]
  split
  case h_1 => exact .bind withPermissions_inner fun _ _ => .bind withPermissions_inner fun _ _ => .ok
  case h_2 =>
    refine .bind (Job.expand_tangle.mono ?_) fun _ _ => .bind withPermissions_inner fun _ _ => .ok
    rintro e (he | ⟨⟨h⟩⟩)
    · exact he
    · exact h.not_acyclic b.acyclic_waits |>.elim

end Pipeline

-- What is tangled does not expand.
theorem Stack.Tangle.not_expand (h : s.Tangle e) : ∀ x, s.expand ≠ .ok x := by
  intro x hx
  obtain ⟨p, hp, h⟩ | ⟨j, hj, ⟨h⟩⟩ := h
  case inl =>
    obtain ⟨g, part⟩ := exists_pipeline_part hx hp
    obtain ⟨_, b⟩ := Pipeline.graph_ok_iff.mp part.graph
    cases h
    case circuit h => exact h.not_acyclic (Pipeline.graph_isOk_iff.mp ⟨g, part.graph⟩).acyclic
    case read i n path name hn hr ha =>
      have hm : name ∈ n.nodeSources.map (·.nodeName) :=
        PipelineNode.reads_names ▸ mem_map_of_mem hr
      obtain ⟨source, hs, rfl⟩ := mem_map.mp hm
      exact ha <| b.known (n, i) (mk_mem_zipIdx_iff_getElem?.mpr hn) source hs
  case inr =>
    have hd : .job j ∈ s.resources.declarations := by simp [Sections.declarations, hj]
    obtain ⟨_, he, _⟩ := exists_part hx hd
    obtain ⟨_, hc, _⟩ := bind_ok_iff.mp <| ofDeclaration_ok he
    exact h.not_acyclic (Job.check_ok_iff.mp hc).acyclic

-- Only the nodes of a pipeline and the tasks of a job can be tangled.
theorem Declaration.expand_tangle {d : Declaration} (hd : d ∈ s.resources.declarations) :
    FailsOnly (fun e => e.IsInner ∨ s.Tangle e) (d.expand c) := by
  have inner (h : FailsOnly IsInner (d.expand c)) :
      FailsOnly (fun e => e.IsInner ∨ s.Tangle e) (d.expand c) := h.mono fun _ => .inl
  cases d
  case pipeline p =>
    have hp : p ∈ s.resources.pipelines := Stack.mem_declarations_pipeline.mp hd
    refine .bind ?_ fun g hg => (Pipeline.expandWith_inner hg).mono fun _ => .inl
    exact Pipeline.graph_tangle.mono fun _ => Or.imp_right fun h => .inl ⟨p, hp, h⟩
  case job j =>
    have hj : j ∈ s.resources.jobs := by simpa [Sections.declarations] using hd
    exact Job.expand_tangle.mono fun _ => Or.imp_right fun h => .inr ⟨j, hj, h⟩
  all_goals apply inner
  case group | user | servicePrincipal => exact .ite (.error <| .flaw (by simp)) .ok
  case catalog              => exact Catalog.expand_inner
  case warehouse            => exact SqlWarehouse.expand_inner
  case vectorSearchEndpoint => exact .ok
  case notebook             => exact withPermissions_inner
  case workspaceFile        => exact WorkspaceFile.expand_inner

-- A declaration is refused with the error of its expansion, or for an id of what it expands to.
theorem Expansion.ofDeclaration_error {d : Declaration} (h : ofDeclaration c d = .error e) :
    d.expand c = .error e ∨
      ∃ rs, d.expand c = .ok rs ∧ (rs.forM fun r => checkAddressable r.id) = .error e := by
  cases d <;> simp only [ofDeclaration, bind_error_iff, pure_eq_ok, Except.ok.injEq, exists_eq_left',
    reduceCtorEq, and_false, exists_false, false_or, or_false] at h
  case pipeline p =>
    obtain h | ⟨g, hg, h | ⟨rs, hr, hf⟩⟩ := h
    · exact .inl <| bind_error_iff.mpr <| .inl h
    · exact .inl <| bind_error_iff.mpr <| .inr ⟨g, hg, h⟩
    · exact .inr ⟨rs, bind_ok_iff.mpr ⟨g, hg, hr⟩, hf⟩
  all_goals exact h

theorem Expansion.ofDeclaration_tangle {d : Declaration} (hd : d ∈ s.resources.declarations) :
    FailsOnly (fun e => e.IsEarly ∨ s.Tangle e) (ofDeclaration c d) := by
  intro e h
  obtain h | ⟨_, _, h⟩ := ofDeclaration_error h
  · exact Declaration.expand_tangle hd e h |>.imp_left (·.early)
  · exact .inl <| FailsOnly.forM (fun _ _ => checkAddressable_early) e h

namespace Stack

theorem expand_tangle : FailsOnly (fun e => e.IsEarly ∨ s.Tangle e) s.expand := by
  refine .bind (.mapM fun _ _ => provider_early.mono fun _ => .inl) fun _ _ => ?_
  exact .bind (.mapM fun _ hd => Expansion.ofDeclaration_tangle hd) fun _ _ => .ok

end Stack

-- What can be refused after the expansion.
def CompileError.IsLate (e : CompileError) : Prop :=
  e.stage = .dependenciesResolved

theorem checkUnique_late {seen : Dict Kind} {rs : List Resource} :
    FailsOnly IsLate (checkUnique seen rs) := by
  induction rs generalizing seen
  case nil => exact .ok
  case cons r rs ih =>
    rw [checkUnique]
    split
    case h_1 => exact .error rfl
    case h_2 => exact ih

theorem Resolution.target_late {rs : List Resource} {r : Resource} {i : Nat} {l : Link} :
    FailsOnly IsLate (target rs r i l) := by
  rw [target]
  split
  case h_1 => exact .error rfl
  case h_2 => exact .ite (.error rfl) .ok

theorem Resolution.ofResources_late {rs : List Resource} : FailsOnly IsLate (ofResources rs) := by
  rw [ofResources_eq]
  refine .bind (.mapM fun _ _ => ?_) fun _ _ => ?_
  · exact .bind (.bind (.mapM fun _ _ => target_late) fun _ _ => .ok) fun _ _ => .ok
  · split
    case h_1 => exact .ok
    case h_2 => exact .error rfl

namespace Stack

theorem Tangle.stage (h : s.Tangle e) : e.stage = .dependenciesResolved := by
  obtain ⟨_, _, ⟨⟩⟩ | ⟨_, _, ⟨⟩⟩ := h <;> rfl

theorem FailsAt.expand (h : s.FailsAt e .expanded) : s.expand = .error e := by
  cases h
  assumption

theorem FailsAt.not_tangle (h : s.FailsAt e .dependenciesResolved) : ¬s.Tangle e := by
  cases h
  case repeated hx _     => exact fun ht => ht.not_expand _ hx
  case unresolved hx _ _ => exact fun ht => ht.not_expand _ hx

theorem FailsAt.late (h : s.FailsAt e .dependenciesResolved) : e.IsLate := by
  cases h
  case repeated h   => exact checkUnique_late e h
  case unresolved h => exact Resolution.ofResources_late e h

-- Compilation fails at one stage only.
theorem FailsAt.unique {a b : Stage} (h : s.FailsAt e a) (h' : s.FailsAt e b) : a = b := by
  cases h <;> cases h' <;> first | rfl | simp_all

-- An error that tells of the expansion comes from there. The others tell the stage that fails exactly
-- if they do not come from the nodes of a pipeline or the tasks of a job.
theorem reports_iff (h : s.compile = .error e) :
    (e.stage = .expanded → s.FailsAt e .expanded) ∧ (s.Reports e ↔ ¬s.Tangle e) := by
  obtain ⟨stage, hf⟩ := compile_error_iff.mp h
  have hs : stage = .expanded ∨ stage = .dependenciesResolved := by cases hf <;> simp
  obtain rfl | rfl := hs
  case inl =>
    have hn : ¬s.FailsAt e .dependenciesResolved := fun h => nomatch hf.unique h
    refine ⟨fun _ => hf, fun r ht => hn <| r.dependenciesResolved.mp ht.stage, fun ht => ?_⟩
    have he : e.IsEarly := expand_tangle e hf.expand |>.resolve_right ht
    exact ⟨iff_of_true he hf, iff_of_false (fun h => nomatch he.symm.trans h) hn⟩
  case inr =>
    have he : e.IsLate := hf.late
    have hn : ¬e.stage = .expanded := fun h => nomatch he.symm.trans h
    refine ⟨fun h => hn h |>.elim, iff_of_true ⟨iff_of_false hn ?_, iff_of_true he hf⟩ hf.not_tangle⟩
    exact fun h => nomatch hf.unique h

end Stack

-- Two groups of one name.
def twinGroups : Stack :=
  let group : Group := { (default : Group) with displayName := "a" }
  { (default : Stack) with
    resources := { (default : Sections) with groups := [group, group] } }

-- A node that reads one that is not there.
def unknownNode : Stack :=
  { (default : Stack) with
    name      := "s"
    resources := { (default : Sections) with
      pipelines := [{ (default : Pipeline) with
        name  := "p"
        nodes := [⟨"n", .node ⟨"m", false, none, none⟩, [], none, none, none⟩] }] } }

theorem reports_iff_unknownNode : (∃ e, twinGroups.compile = .error e ∧ twinGroups.Reports e) ∧
    ∃ e, unknownNode.compile = .error e ∧ unknownNode.Tangle e := by
  have ht : twinGroups.compile = .error (.duplicateResource "group-a" .group .group) := rfl
  have hu : unknownNode.compile =
    .error (.unresolvedReference "p" "nodes.n.source.node_name" "m") := rfl
  constructor
  case left =>
    refine ⟨_, ht, Stack.reports_iff ht |>.right.mpr fun h => ?_⟩
    obtain ⟨_, _, ⟨⟩⟩ | ⟨_, _, ⟨⟩⟩ := h
  case right =>
    refine ⟨_, hu, not_imp_comm.mp (Stack.reports_iff hu |>.right.mpr) fun r => ?_⟩
    exact nomatch r.expanded.mpr (.expanded rfl)

-- The expansion fails, and the error tells of what comes after it.
theorem not_reports_unknownNode : ∃ e, unknownNode.compile = .error e ∧
    unknownNode.FailsAt e .expanded ∧ e.stage = .dependenciesResolved ∧ ¬unknownNode.Reports e := by
  have hx : unknownNode.FailsAt (.unresolvedReference "p" "nodes.n.source.node_name" "m") .expanded :=
    .expanded rfl
  exact ⟨_, rfl, hx, rfl, fun r => nomatch r.expanded.mpr hx⟩

end Lakehouse
