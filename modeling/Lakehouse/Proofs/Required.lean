import Lakehouse.Document
import Lakehouse.Proofs.Compilation
import Lakehouse.Proofs.Fields
import Lakehouse.Proofs.Placeholder
/-!
Required fields. Whatever expansion makes has all of them, but for the path of a notebook or of a
file where none could be found; that alone makes an emission fail.
-/
namespace Lakehouse

open List Attempt Expansion

variable {s : Stack} {g : Graph} {b : Backend} {c : Context} {d : Declaration} {r owner : Resource}
variable {ps : Properties} {key field : String} {v : Value}

namespace WorkspacePath

theorem afterFirst?_eq_none {needle cs : List Char} (hn : needle ≠ []) :
    afterFirst? needle cs = none ↔ ¬needle <:+: cs := by
  induction cs
  case nil => simp [afterFirst?, hn]
  case cons c cs ih =>
    simp only [afterFirst?, infix_cons_iff, isPrefixOf_iff_prefix]
    split
    case isTrue h  => simp [h]
    case isFalse h => simp [h, ih]

theorem resolve?_eq_none {explicit directory : Option String} {source marker root : String} :
    resolve? explicit directory source marker root = none ↔
      explicit = none ∧ directory = none ∧ ¬Text.Within s!"/{marker}/" source := by
  have hn : (s!"/{marker}/").toList ≠ [] := by
    change ("/" ++ marker ++ "/").toList ≠ []
    simp
  cases explicit <;> cases directory <;>
    simp only [resolve?, Option.map_eq_none_iff, afterFirst?_eq_none hn, Text.Within, reduceCtorEq,
      false_and, and_false, true_and]

end WorkspacePath

-- There is no path for the notebook.
def Notebook.Unlocated (n : Notebook) : Prop :=
  n.path = none ∧ n.directory = none ∧ ¬Text.Within "/notebooks/" n.source

-- The directory of a file is of use only with the name of its source.
def WorkspaceFile.Unlocated (f : WorkspaceFile) : Prop :=
  f.path = none ∧ (f.directory = none ∨ f.source.getD "" = "") ∧
    ¬Text.Within "/workspacefiles/" (f.source.getD "")

theorem Notebook.resolvedPath?_eq_none {n : Notebook} {settings : Settings} :
    n.resolvedPath? settings = none ↔ n.Unlocated :=
  WorkspacePath.resolve?_eq_none

theorem WorkspaceFile.resolvedPath?_eq_none {f : WorkspaceFile} {settings : Settings} :
    f.resolvedPath? settings = none ↔ f.Unlocated := by
  refine WorkspacePath.resolve?_eq_none.trans <| and_congr_right fun _ => and_congr_left fun _ => ?_
  by_cases he : f.source.getD "" = "" <;> simp [he]

-- The resource is that of a notebook or of a file for which there is no path.
inductive Stack.Unlocated (s : Stack) (r : Resource) : Prop where
  | notebook {n : Notebook} {bound : List Resource} (hn : n ∈ s.resources.notebooks)
      (he : n.expand s.context = .ok (r :: bound)) (hu : n.Unlocated)
  | workspaceFile {f : WorkspaceFile} {bound : List Resource} (hf : f ∈ s.resources.workspaceFiles)
      (he : f.expand s.context = .ok (r :: bound)) (hu : f.Unlocated)

namespace Emission

theorem isPresent_cons : isPresent ((key, v) :: ps) field =
    if field = key then !v.isNull else isPresent ps field := by
  by_cases h : field = key <;> simp [isPresent, Dict.get?_cons, h]

theorem isPresent_insert : isPresent (Dict.insert ps key v) field =
    if field = key then !v.isNull else isPresent ps field := by
  by_cases h : field = key <;> simp [isPresent, Dict.get?_insert, h]

theorem isPresent_append {more : Properties} (h : isPresent ps field) :
    isPresent (ps ++ more) field := by
  cases hg : Dict.get? ps field <;> simp [isPresent, Dict.get?_append, hg] at h ⊢
  exact h

theorem isPresent_eraseAll {keys : List String} (h : field ∉ keys) :
    isPresent (Dict.eraseAll ps keys) field = isPresent ps field := by
  rw [isPresent, Dict.eraseAll, Dict.get?_filter (by simpa using h), isPresent]

theorem not_isPresent (h : field ∉ Dict.keys ps) : isPresent ps field = false := by
  rw [isPresent, Dict.get?_eq_none h]

-- All that a backend requires is there.
def Complete (r : Resource) : Prop :=
  ∀ field ∈ required r.kind, isPresent r.properties field

theorem not_excluded {kind : Kind} : ∀ field ∈ required kind, field ∉ excluded kind b := by
  cases kind <;> cases b <;> decide

-- Exclusions take nothing from what is required.
theorem Complete.prepare (h : Complete r) : ∃ ps, prepare r b = .ok ps := by
  have hf : (required r.kind).find? (!isPresent (Dict.eraseAll r.properties (excluded r.kind b)) ·) =
      none := by
    simp only [find?_eq_none]
    intro field hf
    simp [isPresent_eraseAll (not_excluded field hf), h field hf]
  exact ⟨Dict.eraseAll r.properties (excluded r.kind b), by simp only [Emission.prepare, hf]⟩

-- What is required is among the properties that are taken.
theorem mem_keys_prepared {ps : Properties} {field : String} (h : prepare r b = .ok ps)
    (hf : field ∈ required r.kind) : field ∈ Dict.keys ps := by
  by_contra hm
  simp only [prepare] at h
  split at h <;> cases h
  case h_2 hn => simpa [not_isPresent hm] using find?_eq_none.mp hn field hf

-- The first required field that is missing is the one that is named.
theorem prepare_missing (before after : List String) (hr : required r.kind = before ++ field :: after)
    (hb : ∀ key ∈ before, isPresent r.properties key) (hf : isPresent r.properties field = false) :
    prepare r b = .error (.missingField b r.id r.kind field) := by
  have he : ∀ key ∈ required r.kind, isPresent (Dict.eraseAll r.properties (excluded r.kind b)) key =
      isPresent r.properties key := fun key h => isPresent_eraseAll (not_excluded key h)
  have hm : (required r.kind).find? (!isPresent (Dict.eraseAll r.properties (excluded r.kind b)) ·) =
      some field := by
    refine find?_eq_some_iff_append.mpr ⟨by simp [he, hr, hf], before, after, hr, fun key hk => ?_⟩
    simp [he, hr, hk, hb key hk]
  simp only [prepare, hm]

end Emission

open Emission

namespace Declaration

-- A record that begins with a required text has that text among its properties.
theorem isPresent_properties {α τ : Type} {fields : Fields τ} {make : String × τ → α}
    {parts : α → String × τ} {a : α} {without : List String}
    (h : field ∉ authoringKeys) (hw : field ∉ without) :
    isPresent (properties (.record (.cons (.required field .text) fields) make parts) a without)
      field := by
  have hs : Codec.properties (.record (.cons (.required field .text) fields) make parts) a =
      (field, .string (parts a).1) :: fields.write (parts a).2 := rfl
  rw [properties, isPresent_eraseAll hw, hs, strip, Dict.eraseAll,
    filter_cons_of_pos (by simpa using h), filter_cons_of_pos rfl, isPresent_cons, if_pos rfl]
  rfl

-- What is written as null is left out.
theorem not_isPresent_properties {α : Type} {codec : Codec α} {a : α} {without : List String}
    (h : ∀ v, (field, v) ∈ codec.properties a → v.isNull) :
    isPresent (properties codec a without) field = false := by
  apply not_isPresent
  intro hm
  have ⟨⟨_, v⟩, hv, he⟩ := mem_map.mp hm
  subst he
  have ⟨hw, _, hn⟩ := mem_properties_iff.mp hv
  simp [h v hw] at hn

theorem isPresent_dropEmpty {keys : List String} (h : field ∉ keys) :
    isPresent (dropEmpty keys ps) field = isPresent ps field := by
  rw [isPresent, dropEmpty, Dict.get?_filter (by simp [h]), isPresent]

end Declaration

open Declaration

theorem Emission.Complete.single (hr : required r.kind = [field])
    (hp : isPresent r.properties field) : Complete r := by
  intro key hk
  rw [hr, mem_singleton] at hk
  exact hk ▸ hp

theorem Job.isPresent_name {j : Job} : isPresent j.properties "name" := by
  rw [Job.properties, isPresent_dropEmpty (by decide)]
  exact isPresent_append <| isPresent_properties (by decide) (by decide)

namespace Expansion

theorem Bound.complete (h : Bound owner r) : Complete r := by
  cases h <;>
    simp [Complete, required, Resource.auxiliary, Expansion.membership, role, Expansion.userRole,
      Expansion.servicePrincipalRole, isPresent_cons, Codec.list, Value.isNull]

-- A primary resource has all that is required, the path of a notebook or of a file apart.
theorem Primary.complete (h : Primary c d r) : Complete r ∨
    (∃ n, d = .notebook n ∧ n.Unlocated) ∨ ∃ f, d = .workspaceFile f ∧ f.Unlocated := by
  cases h
  case notebook n =>
    cases hp : n.resolvedPath? c.settings
    case none => exact .inr <| .inl ⟨n, rfl, Notebook.resolvedPath?_eq_none.mp hp⟩
    case some path =>
      refine .inl fun field hf => isPresent_insert.trans ?_
      split
      case isTrue  => rfl
      case isFalse =>
        obtain rfl : field = "source" := by simpa [required, Context.primary, *] using hf
        exact isPresent_properties (by decide) (by decide)
  case workspaceFile f =>
    cases hp : f.resolvedPath? c.settings
    case none      => exact .inr <| .inr ⟨f, rfl, WorkspaceFile.resolvedPath?_eq_none.mp hp⟩
    case some path => exact .inl <| .single rfl <| isPresent_insert.trans (if_pos rfl)
  all_goals left
  case group | user | servicePrincipal | catalog | warehouse | vectorSearchEndpoint =>
    exact .single rfl <| isPresent_properties (by decide) (by decide)
  case schema | volume =>
    exact .single rfl <| isPresent_append <| isPresent_properties (by decide) (by decide)
  case configFile | dltPipeline => exact .single rfl rfl
  case pipelineJob | job        => exact .single rfl Job.isPresent_name
  case table =>
    refine .single rfl <| isPresent_append ?_
    rw [isPresent_dropEmpty (by decide)]
    exact isPresent_properties (by decide) (by decide)

end Expansion

theorem Notebook.not_isPresent_path {n : Notebook} (h : n.path = none) :
    isPresent (properties Notebook.codec n ["dirpath", "access_controls"]) "path" = false := by
  apply not_isPresent_properties
  change ∀ v : Value, ("path", v) ∈ [("source", _), ("path", Value.ofOption (n.path.map .string)),
    ("dirpath", _), ("language", _), ("access_controls", _), ("resource_name", _), ("options", _)] →
      v.isNull
  simp [h, Value.ofOption, Value.isNull]

theorem WorkspaceFile.not_isPresent_path {f : WorkspaceFile} (h : f.path = none) :
    isPresent (properties WorkspaceFile.codec f ["dirpath", "access_controls"]) "path" = false := by
  apply not_isPresent_properties
  change ∀ v : Value, ("path", v) ∈ [("source", _), ("content_base64", _),
    ("path", Value.ofOption (f.path.map .string)), ("dirpath", _), ("access_controls", _),
    ("resource_name", _), ("options", _)] → v.isNull
  simp [h, Value.ofOption, Value.isNull]

namespace Stack

theorem Unlocated.lacks_path (h : s.Unlocated r) : isPresent r.properties "path" = false ∧
    (r.kind = .notebook ∧ isPresent r.properties "source" ∨ r.kind = .workspaceFile) := by
  cases h
  case notebook he hu =>
    have ⟨_, hr, _⟩ := Notebook.expand_family .notebook he
    cases hr
    rw [Notebook.resolvedPath?_eq_none.mpr hu]
    refine ⟨Notebook.not_isPresent_path hu.left, .inl ⟨rfl, ?_⟩⟩
    exact isPresent_properties (by decide) (by decide)
  case workspaceFile he hu =>
    have ⟨_, hr, _⟩ := WorkspaceFile.expand_family .workspaceFile he
    cases hr
    rw [WorkspaceFile.resolvedPath?_eq_none.mpr hu]
    exact ⟨WorkspaceFile.not_isPresent_path hu.left, .inr rfl⟩

theorem Unlocated.prepare (h : s.Unlocated r) :
    prepare r b = .error (.missingField b r.id r.kind "path") := by
  obtain ⟨hp, ⟨hk, hs⟩ | hk⟩ := h.lacks_path
  · exact prepare_missing ["source"] [] (hk ▸ rfl) (forall_mem_singleton.mpr hs) hp
  · exact prepare_missing [] [] (hk ▸ rfl) (by simp) hp

theorem Unlocated.kind (h : s.Unlocated r) : r.kind = .notebook ∨ r.kind = .workspaceFile :=
  h.lacks_path.right.imp_left And.left

-- Only the path is missing.
theorem Unlocated.isPresent (h : s.Unlocated r) (hf : field ∈ required r.kind) :
    isPresent r.properties field ∨ field = "path" := by
  obtain ⟨_, ⟨hk, hs⟩ | hk⟩ := h.lacks_path
  · rw [hk] at hf
    obtain rfl | rfl : field = "source" ∨ field = "path" := by simpa [required] using hf
    · exact .inl hs
    · exact .inr rfl
  · rw [hk] at hf
    exact .inr <| mem_singleton.mp hf

theorem Makes.complete_or_unlocated (h : s.Makes r) : Complete r ∨ s.Unlocated r := by
  cases h
  case bound hb => exact .inl hb.complete
  case provider h =>
    have ⟨_, _, h⟩ := bind_ok_iff.mp h
    cases h
    exact .inl fun _ h => nomatch h
  case primary hd he hp =>
    obtain hc | ⟨n, rfl, hu⟩ | ⟨f, rfl, hu⟩ := hp.complete
    · exact .inl hc
    · have ⟨_, hr, _⟩ := Notebook.expand_family hp he
      subst hr
      exact .inr <| .notebook (by simpa [Sections.declarations] using hd) he hu
    · have ⟨_, hr, _⟩ := WorkspaceFile.expand_family hp he
      subst hr
      exact .inr <| .workspaceFile (by simpa [Sections.declarations] using hd) he hu

end Stack

theorem Pulumi.body_error_iff {e : EmitError} :
    body g = .error e ↔ g.resources.mapM (Emission.prepare · .pulumi) = .error e := by
  have hr : ∀ r e, (do return (r.id, ← entry g r) : Except EmitError (String × Value)) = .error e ↔
      Emission.prepare r .pulumi = .error e := by
    simp [entry, Pulumi.properties, bind_error_iff]
  rw [← mapM_error_congr fun r _ => hr r, body, bind_error_iff]
  simp

theorem Terraform.body_error_iff {e : EmitError} :
    body g = .error e ↔ g.resources.mapM (Emission.prepare · .terraform) = .error e := by
  have hr : ∀ r e, place g r = .error e ↔ Emission.prepare r .terraform = .error e := by
    intro r e
    cases h : typeName? r.kind <;> simp [place, h, providerEntry, block, bind_error_iff]
  rw [← mapM_error_congr fun r _ => hr r, body, bind_error_iff]
  simp

-- An emission fails as the first resource does that is not prepared.
theorem Graph.emit_error_iff {e : EmitError} :
    g.emit b = .error e ↔ g.resources.mapM (Emission.prepare · b) = .error e := by
  cases b
  case pulumi    => simp [emit, bind_error_iff, Pulumi.body_error_iff]
  case terraform => simp [emit, bind_error_iff, Terraform.body_error_iff]

-- How emissions of a graph fail: for a path that could not be found, and for nothing else.
structure Graph.FailsForPaths (s : Stack) (g : Graph) : Prop where
  fails : ∀ b, (∃ e, g.emit b = .error e) ↔ ∃ r ∈ g.resources, s.Unlocated r
  -- The first resource without a path is named, whatever the backend.
  names : ∀ b e, g.emit b = .error e ↔ ∃ before r after, g.resources = before ++ r :: after ∧
    (∀ q ∈ before, ¬s.Unlocated q) ∧ s.Unlocated r ∧ e = .missingField b r.id r.kind "path"
  kinds : ∀ r, s.Unlocated r → r.kind = .notebook ∨ r.kind = .workspaceFile
  -- Nothing else that is required is missing, and no exclusion takes it away.
  other : ∀ r ∈ g.resources, ∀ field ∈ required r.kind,
    isPresent r.properties field ∨ field = "path" ∧ s.Unlocated r
  kept  : ∀ r ∈ g.resources, ∀ field ∈ required r.kind, ∀ b, field ∉ excluded r.kind b

namespace Stack

theorem Makes.prepare_error_iff {e : EmitError} (h : s.Makes r) :
    prepare r b = .error e ↔ s.Unlocated r ∧ e = .missingField b r.id r.kind "path" := by
  constructor
  case mpr => exact fun ⟨hu, he⟩ => he ▸ hu.prepare
  case mp =>
    intro he
    cases h.complete_or_unlocated
    case inl hc =>
      have ⟨_, ho⟩ := hc.prepare (b := b)
      simp [ho] at he
    case inr hu => exact ⟨hu, by simpa [hu.prepare, eq_comm] using he⟩

theorem Makes.prepare_isOk_iff (h : s.Makes r) :
    (∃ ps, prepare r b = .ok ps) ↔ ¬s.Unlocated r := by
  simp [isOk_iff, h.prepare_error_iff]

theorem emit_fails_for_paths (h : s.compile = .ok g) : g.FailsForPaths s := by
  have ⟨x, order, c⟩ := compile_compiled h
  have hm : ∀ r ∈ g.resources, s.Makes r :=
    fun r hr => makes_of_expand c.expand (c.perm.mem_iff.mp hr)
  exact {
    fails := by
      intro b
      have ho : (∀ r ∈ g.resources, ∃ ps, prepare r b = .ok ps) ↔
          ∀ r ∈ g.resources, ¬s.Unlocated r :=
        forall₂_congr fun r hr => (hm r hr).prepare_isOk_iff
      simp only [Graph.emit_error_iff, isError_iff, mapM_isOk_iff, ho]
      simp
    names := by
      intro b e
      rw [Graph.emit_error_iff, mapM_error_iff]
      refine exists₃_congr fun before r after => and_congr_right fun he => ?_
      have hb : ∀ q ∈ before, s.Makes q := fun q hq => hm q <| by simp [he, hq]
      have hr : s.Makes r := hm r <| by simp [he]
      rw [hr.prepare_error_iff]
      exact and_congr_left fun _ => forall₂_congr fun q hq => (hb q hq).prepare_isOk_iff
    kinds := fun _ hu => hu.kind
    other := by
      intro r hr field hf
      cases hm r hr |>.complete_or_unlocated
      case inl hc => exact .inl <| hc field hf
      case inr hu => exact hu.isPresent hf |>.imp_right fun he => ⟨he, hu⟩
    kept  := fun _ _ field hf b => not_excluded field hf
  }

end Stack

-- A notebook that is put under the root, and one that has no place.
def looseNotebook : Stack :=
  let notebook (source : String) : Notebook := { (default : Notebook) with source }
  { (default : Stack) with
    resources := { (default : Sections) with
      notebooks := [notebook "src/notebooks/a.py", notebook "b.py"] } }

theorem emit_fails_for_paths_looseNotebook : ∃ g, looseNotebook.compile = .ok g ∧
    g.FailsForPaths looseNotebook ∧ ∃ r ∈ g.resources, looseNotebook.Unlocated r := by
  let g := looseNotebook.compile.toOption.getD default
  have hg : looseNotebook.compile = .ok g := eq_ok_of_isSome (by decide +kernel)
  have hf := Stack.emit_fails_for_paths hg
  have he : ¬∃ d, g.emit .pulumi = .ok d := by
    intro ⟨d, hd⟩
    have hn : (g.emit .pulumi).toOption.isNone := by decide +kernel
    simp [hd, Except.toOption] at hn
  exact ⟨g, hg, hf, hf.fails .pulumi |>.mp <| isError_iff.mpr he⟩

end Lakehouse
