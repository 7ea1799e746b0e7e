import Lakehouse.Proofs.Grammar
import Lakehouse.Proofs.Grouping
import Lakehouse.Proofs.Stages
/-!
Addresses. An id that is derived can be addressed, whatever it is derived from. What makes an id that
cannot be is a name that the stack gives by itself: of a provider, or of something that is declared.
-/
namespace Lakehouse

open List Attempt Expansion

variable {c : Context} {d : Declaration} {r owner : Resource} {rs : List Resource} {s : Stack}
variable {id name stem path : String} {e : CompileError}

namespace Ident

instance : DecidablePred IsNameChar :=
  fun c => decidable_of_iff (isIdentChar c) isIdentChar_iff

-- The path with a hyphen for every character that an id cannot hold.
def hyphenated (path : String) : List Char :=
  path.toList.map fun c => if IsNameChar c then c else '-'

theorem stripHyphens_eq_drop (n : Nat) (cs : List Char) :
    stripHyphens n cs = cs.drop (min n (cs.takeWhile (· = '-')).length) := by
  induction n generalizing cs
  case zero => simp [stripHyphens]
  case succ n ih =>
    cases cs
    case nil => simp [stripHyphens]
    case cons c cs =>
      by_cases hc : c = '-'
      case pos =>
        subst hc
        simp [stripHyphens, ih, Nat.succ_min_succ]
      case neg => simp [stripHyphens, hc]

-- A key is its path in hyphens, without the first five of those that it begins with.
theorem toList_key : (key path).toList =
    (hyphenated path).drop (min 5 ((hyphenated path).takeWhile (· = '-')).length) := by
  simp only [key, maxStrip, stripHyphens_eq_drop, String.toList_ofList, hyphenated,
    isIdentChar_iff]

-- Seven hyphens are more than a key loses.
example : key "/../../a b" = "--a-b" := by
  decide +kernel

theorem isNameChar_key : ∀ c ∈ (key path).toList, IsNameChar c := by
  intro c hc
  obtain ⟨a, _, rfl⟩ := mem_map.mp <| mem_of_mem_drop (toList_key ▸ hc)
  split
  case isTrue ha => exact ha
  case isFalse   => decide

theorem isAddressable_append {a b : String} (ha : isAddressable a)
    (hb : ∀ c ∈ b.toList, IsNameChar c) : isAddressable (a ++ b) := by
  obtain ⟨hn, hc⟩ := Placeholder.isAddressable_iff_name.mp ha
  refine Placeholder.isAddressable_iff_name.mpr ⟨by simp [hn], ?_⟩
  simpa only [String.toList_append, forall_mem_append] using ⟨hc, hb⟩

theorem isNameChar_hyphen : ∀ c ∈ "-".toList, IsNameChar c := by
  have hl : "-".toList = ['-'] := by decide
  rw [hl, forall_mem_singleton]
  decide

theorem isAddressable_derive (h : isAddressable stem) : isAddressable (derive none stem path) :=
  isAddressable_append (isAddressable_append h isNameChar_hyphen) isNameChar_key

end Ident

open Ident

-- What is named after an id that can be addressed can be addressed too.
theorem Resource.IdOf.isAddressable {kind : Kind} (h : IdOf name kind id)
    (hn : Ident.isAddressable name) : Ident.isAddressable id := by
  have hc := (Placeholder.isAddressable_iff_name.mp hn).right
  have key {front tail : String} (hf : Ident.isAddressable front)
      (ht : ∀ c ∈ tail.toList, IsNameChar c) :
      Ident.isAddressable (front ++ name ++ "-" ++ tail) :=
    isAddressable_append (isAddressable_append (isAddressable_append hf hc) isNameChar_hyphen) ht
  cases h
  case permissions | grants => exact isAddressable_append (by decide) hc
  all_goals exact key (by decide) isNameChar_key

-- The names that a schema and what it holds are given by themselves.
def Schema.resourceNames (s : Schema) : List (Option String) :=
  s.resourceName :: (s.tables.map (·.resourceName) ++ s.volumes.map (·.resourceName))

-- The same for a declaration and for all that is nested in it.
def Declaration.resourceNames : Declaration → List (Option String)
  | .group d => [d.resourceName]
  | .user d => [d.resourceName]
  | .servicePrincipal d => [d.resourceName]
  | .catalog d => d.resourceName :: d.schemas.flatMap Schema.resourceNames
  | .warehouse d => [d.resourceName]
  | .vectorSearchEndpoint d => [d.resourceName]
  | .notebook d => [d.resourceName]
  | .workspaceFile d => [d.resourceName]
  | .pipeline d => [d.resourceName]
  | .job d => [d.resourceName]

-- The stack has a provider of this name, or a declaration in it is named so by itself.
def Stack.Names (s : Stack) (name : String) : Prop :=
  name ∈ Dict.keys s.providers ∨ ∃ d ∈ s.resources.declarations, some name ∈ d.resourceNames

namespace Expansion

-- An id is either named or derived.
theorem Primary.named_or_addressable (h : Primary c d r) :
    some r.id ∈ d.resourceNames ∨ isAddressable r.id := by
  have derived {explicit : Option String} {stem path : String} (hs : isAddressable stem)
      (hm : explicit ∈ d.resourceNames) (hr : r.id = derive explicit stem path) :
      some r.id ∈ d.resourceNames ∨ isAddressable r.id := by
    cases explicit
    case none => exact .inr <| hr ▸ isAddressable_derive hs
    case some => exact .inl <| hr ▸ hm
  have nested {d : Catalog} {s : Schema} {explicit : Option String} (hs : s ∈ d.schemas)
      (hm : explicit ∈ s.resourceNames) : explicit ∈ (Declaration.catalog d).resourceNames :=
    mem_cons_of_mem _ <| mem_flatMap.mpr ⟨s, hs, hm⟩
  cases h
  case schema hs => exact derived (by decide) (nested hs mem_cons_self) rfl
  case table hs ht =>
    refine derived (by decide) (nested hs ?_) rfl
    exact mem_cons_of_mem _ <| mem_append_left _ <| mem_map_of_mem ht
  case volume hs hv =>
    refine derived (by decide) (nested hs ?_) rfl
    exact mem_cons_of_mem _ <| mem_append_right _ <| mem_map_of_mem hv
  case dltPipeline p _ _ ho =>
    have hi : p.id = derive p.resourceName "dlt-pipeline" p.name := by rw [Pipeline.id, ho]
    exact derived (by decide) mem_cons_self hi
  case pipelineJob p _ _ ho =>
    have hi : p.id = derive p.resourceName "job" p.name := by rw [Pipeline.id, ho]
    exact derived (by decide) mem_cons_self hi
  case configFile => exact .inr <| isAddressable_derive (by decide)
  all_goals exact derived (by decide) mem_cons_self rfl

end Expansion

-- Whatever a declaration is named by itself is the id of one of its primary resources.
theorem Declaration.primary_of_resourceNames (h : some name ∈ d.resourceNames) :
    ∃ r, Primary c d r ∧ r.id = name := by
  have of_derive {explicit : Option String} {stem path : String} (he : some name = explicit) :
      derive explicit stem path = name := by
    cases he
    rfl
  cases d
  case catalog d =>
    obtain he | hm := mem_cons.mp h
    · exact ⟨_, .catalog, of_derive he⟩
    · obtain ⟨s, hs, hm⟩ := mem_flatMap.mp hm
      simp only [Schema.resourceNames, mem_cons, mem_append, mem_map] at hm
      obtain he | ⟨t, ht, he⟩ | ⟨v, hv, he⟩ := hm
      · exact ⟨_, .schema hs, of_derive he⟩
      · exact ⟨_, .table hs ht, of_derive he.symm⟩
      · exact ⟨_, .volume hs hv, of_derive he.symm⟩
  case pipeline p =>
    have hi : p.id = name := of_derive (mem_singleton.mp h)
    cases ho : p.orchestrator
    case dlt => exact ⟨_, .dltPipeline (g := default) ho, hi⟩
    case job => exact ⟨_, .pipelineJob (g := default) ho, hi⟩
  all_goals exact ⟨_, by constructor, of_derive (mem_singleton.mp h)⟩

namespace Expansion

theorem checkAddressable_error_iff : checkAddressable id = .error e ↔
    ¬isAddressable id ∧ e = .invalidDeclaration id .notAddressable := by
  rw [checkAddressable]
  split
  case isTrue ha  => simp [ha]
  case isFalse ha => simp [ha, eq_comm]

-- The first resource that cannot be addressed is not bound to another one.
theorem primary_of_first {pre post : List Resource} (h : d.expand c = .ok (pre ++ r :: post))
    (hp : ∀ q ∈ pre, isAddressable q.id) (hr : ¬isAddressable r.id) : Primary c d r := by
  have hf := Declaration.expand_families h
  obtain hp | ⟨_, _, hb⟩ := hf.primary_or_bound (mem_append_right _ mem_cons_self)
  · exact hp
  · obtain ⟨q, ⟨_, _, rfl, _⟩, hq⟩ := hf.bound rfl hb.owner_ne
    exact hr (hq.id.isAddressable <| hp q <| by simp) |>.elim

end Expansion

namespace Stack

-- A stack is refused for an id that cannot be addressed only if it is one of its names.
theorem expand_notAddressable (h : s.expand = .error (.invalidDeclaration id .notAddressable)) :
    s.Names id ∧ ¬isAddressable id := by
  obtain h | ⟨_, _, h⟩ := bind_error_iff.mp h
  case inl =>
    obtain ⟨_, ⟨name, p⟩, _, hs, _, h⟩ := mapM_error_iff.mp h
    obtain h | ⟨_, _, h⟩ := bind_error_iff.mp h
    · obtain ⟨ha, he⟩ := checkAddressable_error_iff.mp h
      cases he
      exact ⟨.inl <| by simp [Dict.keys, hs], ha⟩
    · contradiction
  case inr =>
    obtain h | ⟨_, _, h⟩ := bind_error_iff.mp h
    · obtain ⟨_, d, _, hs, _, h⟩ := mapM_error_iff.mp h
      have hd : d ∈ s.resources.declarations := by simp [hs]
      obtain h | ⟨rs, hr, h⟩ := ofDeclaration_error h
      · obtain hp | ht := Declaration.expand_tangle hd _ h
        · exact hp.addressable _ rfl |>.elim
        · exact Stage.noConfusion ht.stage
      · obtain ⟨pre, r, post, rfl, hp, h⟩ := forM_error_iff.mp h
        obtain ⟨ha, he⟩ := checkAddressable_error_iff.mp h
        cases he
        have hp := primary_of_first hr (fun q hq => checkAddressable_ok (hp q hq)) ha
        exact ⟨.inr ⟨d, hd, hp.named_or_addressable.resolve_right ha⟩, ha⟩
    · contradiction

-- Whatever expands has names that can be addressed.
theorem addressable_of_names {x : Expansion} (h : s.expand = .ok x) (hn : s.Names name) :
    isAddressable name := by
  obtain hn | ⟨d, hd, hn⟩ := hn
  case inl =>
    obtain ⟨entry, he, rfl⟩ := mem_map.mp hn
    obtain ⟨r, hr, hp⟩ := expand_provider h he
    exact (provider_ok hp).left ▸ expand_addressable h hr
  case inr =>
    obtain ⟨part, he, hs, _⟩ := exists_part h hd
    obtain ⟨r, hp, rfl⟩ := Declaration.primary_of_resourceNames (c := s.context) hn
    obtain ⟨q, hq, hi, _⟩ := Declaration.exists_of_primary (ofDeclaration_ok he) hp
    exact hi ▸ expand_addressable h (hs hq)

end Stack

-- A resource that cannot be addressed has such a name by itself, or its owner has.
theorem Declaration.named_of_not_addressable (h : d.expand c = .ok rs) (hr : r ∈ rs)
    (ha : ¬isAddressable r.id) : ∃ name, some name ∈ d.resourceNames ∧ ¬isAddressable name ∧
      (r.id = name ∨ r.owner = some name) := by
  obtain hp | ⟨owner, hp, hb⟩ := expand_families h |>.primary_or_bound hr
  case inl => exact ⟨_, hp.named_or_addressable.resolve_right ha, ha, .inl rfl⟩
  case inr =>
    have ho : ¬isAddressable owner.id := mt hb.boundTo.id.isAddressable ha
    exact ⟨_, hp.named_or_addressable.resolve_right ho, ho, .inr hb.boundTo.owner⟩

-- A stack is refused for an id that cannot be addressed only where one of its names is such an id, and
-- with such a name it does not expand. What is expanded from a declaration can be addressed unless the
-- name of it, or of its owner, cannot be; and the key of a path is told character by character.
theorem Stack.expand_addressing (s : Stack) :
    (∀ id, s.expand = .error (.invalidDeclaration id .notAddressable) →
      s.Names id ∧ ¬isAddressable id) ∧
    ((∃ name, s.Names name ∧ ¬isAddressable name) → ∃ e, s.expand = .error e) ∧
    (∀ d ∈ s.resources.declarations, ∀ rs, d.expand s.context = .ok rs → ∀ r ∈ rs,
      ¬isAddressable r.id → ∃ name, some name ∈ d.resourceNames ∧ ¬isAddressable name ∧
        (r.id = name ∨ r.owner = some name)) ∧
    ∀ path, (key path).toList =
      (hyphenated path).drop (min 5 ((hyphenated path).takeWhile (· = '-')).length) := by
  refine ⟨fun _ => expand_notAddressable, ?_, ?_, fun _ => toList_key⟩
  · intro ⟨_, hn, ha⟩
    exact isError_iff.mpr fun ⟨_, hx⟩ => ha (addressable_of_names hx hn)
  · exact fun d _ _ he _ => d.named_of_not_addressable he

-- A notebook with a blank in its own name, and with permissions.
def spacedNotebook : Notebook :=
  { (default : Notebook) with
    source         := "./report.py"
    resourceName   := some "my report"
    accessControls := [⟨some "team", none, none, "CAN_READ"⟩] }

def spacedReport : Stack :=
  { (default : Stack) with
    resources := { (default : Sections) with notebooks := [spacedNotebook] } }

theorem expand_addressing_spacedReport :
    spacedReport.Names "my report" ∧ ¬isAddressable "my report" ∧
      (∃ e, spacedReport.expand = .error e) ∧
      ∃ rs, (Declaration.notebook spacedNotebook).expand spacedReport.context = .ok rs ∧
        ∃ r ∈ rs, r.id = "permissions-my report" ∧
          ∃ name, some name ∈ (Declaration.notebook spacedNotebook).resourceNames ∧
            ¬isAddressable name ∧ (r.id = name ∨ r.owner = some name) := by
  obtain ⟨hs, hn, hd, _⟩ := Stack.expand_addressing spacedReport
  have hx : spacedReport.expand = .error (.invalidDeclaration "my report" .notAddressable) := rfl
  obtain ⟨hm, ha⟩ := hs _ hx
  refine ⟨hm, ha, hn ⟨_, hm, ha⟩, _, rfl, _, mem_cons_of_mem _ mem_cons_self, rfl, ?_⟩
  exact hd _ (by simp [spacedReport, Sections.declarations]) _ rfl _
    (mem_cons_of_mem _ mem_cons_self) (by decide +kernel)

end Lakehouse
