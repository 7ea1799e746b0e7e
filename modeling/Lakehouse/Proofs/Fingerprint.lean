import Lakehouse.Proofs.Codec
import Lakehouse.Proofs.Digest
import Lakehouse.Proofs.Hints
import Lakehouse.Proofs.Reordering
/-!
Fingerprints. Where no two inputs collide, the fingerprint of a graph says what its resources are and
in which order they come. They in turn say what its edges are, what the ordering hints of every id,
and what its documents provision.
-/
namespace Lakehouse

open List Attempt

variable {s s' : Stack} {g g' : Graph}

namespace Graph

-- What is written of the resources, and its texts.
def written (g : Graph) : List Value :=
  g.resources.map Resource.codec.write

def texts (g : Graph) : List String :=
  g.written.map Json.compact

-- What is hashed for the fingerprint: the hashes of the texts in one, and each text.
def hashed (g : Graph) : List ByteArray :=
  Digest.framed (g.texts.map Digest.ofText) :: g.texts.map String.toUTF8

theorem fingerprint_eq :
    g.fingerprint = Digest.ofBytes (Digest.framed (g.texts.map Digest.ofText)) := by
  rw [texts, written, List.map_map, List.map_map]
  rfl

theorem texts_eq (hc : Digest.NoCollision g.hashed g'.hashed) (h : g.fingerprint = g'.fingerprint) :
    g.texts = g'.texts := by
  rw [fingerprint_eq, fingerprint_eq] at h
  have ⟨hf, ht⟩ := forall_mem_cons.mp hc
  have hp : g.texts.map Digest.ofText = g'.texts.map Digest.ofText := by
    apply Digest.framed_inj ?_ ?_ <| hf <| Digest.ofBytes_inj h
    · simp [Digest.notMem_ofText]
    · simp [Digest.notMem_ofText]
  refine eq_of_map_eq_zip (fun pair hm => Digest.ofText_inj ?_) hp
  refine ht (pair.map String.toUTF8 String.toUTF8) ?_
  rw [← zip, zip_map]
  exact mem_map_of_mem hm

theorem resources_eq (hc : Digest.NoCollision g.hashed g'.hashed)
    (hj : Set.InjOn Json.compact {v | v ∈ g.written ++ g'.written})
    (h : g.fingerprint = g'.fingerprint) : g.resources = g'.resources := by
  have hw : g.written = g'.written :=
    eq_of_map_eq (fun _ hv _ hw => hj (mem_append_left _ hv) (mem_append_right _ hw)) (texts_eq hc h)
  exact Resource.codec_injective.list_map hw

end Graph

-- The sections of a document that hold what is provisioned.
def Backend.sections : Backend → List String
  | .pulumi    => ["resources"]
  | .terraform => ["provider", "resource"]

-- Two attempts at a value either fail alike, or make values that agree on some of their fields.
def AgreeOn (keys : List String) (x y : Except EmitError Value) : Prop :=
  (∃ e, x = .error e ∧ y = .error e) ∨
    ∃ v w, x = .ok v ∧ y = .ok w ∧ ∀ key ∈ keys, v.field? key = w.field? key

theorem agreeOn_bind {α : Type} {parts : Except EmitError α} {make make' : α → Value}
    {keys : List String} (hk : ∀ a, ∀ key ∈ keys, (make a).field? key = (make' a).field? key) :
    AgreeOn keys (parts >>= fun a => .ok (make a)) (parts >>= fun a => .ok (make' a)) := by
  cases parts
  case error e => exact .inl ⟨e, rfl, rfl⟩
  case ok a    => exact .inr ⟨_, _, rfl, rfl, hk a⟩

namespace Pulumi

theorem entry_congr (hh : ∀ id, g.orderingHints id = g'.orderingHints id) : entry g = entry g' := by
  funext r
  simp only [entry, options, hh]

theorem body_agreeOn (hr : g.resources = g'.resources)
    (hh : ∀ id, g.orderingHints id = g'.orderingHints id) :
    AgreeOn Backend.pulumi.sections (body g) (body g') := by
  simp only [body, hr, entry_congr hh]
  refine agreeOn_bind fun entries => ?_
  cases g.description <;> cases g'.description <;>
    simp [Backend.sections, Value.field?, Value.object?, Dict.get?_cons]

end Pulumi

namespace Terraform

-- Blocks are made of the resources and their hints.
theorem place_congr (hr : g.resources = g'.resources)
    (hh : ∀ id, g.orderingHints id = g'.orderingHints id) : place g = place g' := by
  have ha : address g = address g' := by
    funext id
    simp only [address, typeOf?, hr]
  have hf : reference g = reference g' := by
    funext p
    simp only [reference, ha]
  funext r
  simp only [place, block, metaArguments, ha, hf, hh]

theorem body_agreeOn (hr : g.resources = g'.resources)
    (hh : ∀ id, g.orderingHints id = g'.orderingHints id) :
    AgreeOn Backend.terraform.sections (body g) (body g') := by
  simp only [body, hr, place_congr hr hh]
  refine agreeOn_bind fun placed => ?_
  cases g.vars.isEmpty <;> cases g'.vars.isEmpty <;>
    cases (placed.filterMap Placed.provider?).isEmpty <;>
    simp [Backend.sections, Value.field?, Value.object?, Dict.get?_cons]

end Terraform

theorem Graph.emit_body (b : Backend) : (g.emit b).map (·.body) = match b with
    | .pulumi    => Pulumi.body g
    | .terraform => Terraform.body g := by
  cases b
  case pulumi    => cases h : Pulumi.body g <;> simp [emit, h, Except.map]
  case terraform => cases h : Terraform.body g <;> simp [emit, h, Except.map]

-- The graphs differ in nothing that is provisioned.
structure Graph.Alike (g g' : Graph) : Prop where
  resources : g.resources = g'.resources
  edges     : g.edges ~ g'.edges
  hints     : ∀ id, g.orderingHints id = g'.orderingHints id
  documents : ∀ b, AgreeOn b.sections ((g.emit b).map (·.body)) ((g'.emit b).map (·.body))

theorem Stack.fingerprint_alike (h : s.compile = .ok g) (h' : s'.compile = .ok g')
    (hc : Digest.NoCollision g.hashed g'.hashed)
    (hj : Set.InjOn Json.compact {v | v ∈ g.written ++ g'.written})
    (hf : g.fingerprint = g'.fingerprint) : g.Alike g' := by
  have ⟨_, _, c⟩ := compile_compiled h
  have ⟨_, _, c'⟩ := compile_compiled h'
  have hr := Graph.resources_eq hc hj hf
  have hg : ∀ id, g.get? id = g'.get? id := fun id => by rw [Graph.get?, Graph.get?, hr]
  have hh : ∀ id, g.orderingHints id = g'.orderingHints id := fun id => by
    rw [c.orderingHints_eq, c'.orderingHints_eq, hg]
  exact {
    resources := hr
    edges     := c.edges_perm c' (.of_eq hr)
    hints     := hh
    documents := by
      intro b
      rw [Graph.emit_body, Graph.emit_body]
      cases b
      case pulumi    => exact Pulumi.body_agreeOn hr hh
      case terraform => exact Terraform.body_agreeOn hr hh
  }

-- Groups that are to come one after the other.
def chainedGroups (name : String) (order : List Group → List Group) : Stack :=
  let group (name : String) (dependsOn : List String) : Group :=
    { (default : Group) with displayName := name, options := { Options.none with dependsOn } }
  { (default : Stack) with
    name, resources := { (default : Sections) with
      groups := order [group "a" [], group "b" ["group-a"], group "c" ["group-b"]] } }

theorem fingerprint_alike_chainedGroups : ∃ g g', (chainedGroups "up" id).compile = .ok g ∧
    (chainedGroups "down" reverse).compile = .ok g' ∧ g.edges ≠ g'.edges ∧
      Digest.NoCollision g.hashed g'.hashed ∧
        Set.InjOn Json.compact {v | v ∈ g.written ++ g'.written} ∧
          g.fingerprint = g'.fingerprint ∧ g.Alike g' := by
  let g := (chainedGroups "up" id).compile.toOption.getD default
  let g' := (chainedGroups "down" reverse).compile.toOption.getD default
  have hg : (chainedGroups "up" id).compile = .ok g := eq_ok_of_isSome (by decide +kernel)
  have hg' : (chainedGroups "down" reverse).compile = .ok g' := eq_ok_of_isSome (by decide +kernel)
  have hs : (chainedGroups "up" id).Reorders (chainedGroups "down" reverse) := {
    settings  := rfl
    providers := rfl
    resources := {
      groups                := (reverse_perm _).symm
      users                 := .refl _
      servicePrincipals     := .refl _
      catalogs              := ⟨_, .nil, .refl _⟩
      warehouses            := .refl _
      vectorSearchEndpoints := .refl _
      notebooks             := .refl _
      workspaceFiles        := .refl _
      pipelines             := .refl _
      jobs                  := .refl _ } }
  have hr : g.resources = g'.resources := hs.resources_eq hg hg' (by decide +kernel)
  have hw : g'.written = g.written := by simp only [Graph.written, hr]
  have hc : Digest.NoCollision g.hashed g'.hashed := by
    have hh : g'.hashed = g.hashed := by simp only [Graph.hashed, Graph.texts, hw]
    rw [hh]
    exact .refl _
  have hj : Set.InjOn Json.compact {v | v ∈ g.written ++ g'.written} := by
    have ht : (g.written.map Json.compact).Nodup := by decide +kernel
    have hm : ∀ v ∈ g.written ++ g'.written, v ∈ g.written := by
      simp only [hw, mem_append, or_self, imp_self, implies_true]
    exact fun v hv w hw he => inj_on_of_nodup_map ht (hm v hv) (hm w hw) he
  have hf : g.fingerprint = g'.fingerprint := by simp only [Graph.fingerprint, hr]
  have he : g.edges ≠ g'.edges := by decide +kernel
  have ha : g.Alike g' := Stack.fingerprint_alike hg hg' hc hj hf
  exact ⟨g, g', hg, hg', he, hc, hj, hf, ha⟩

end Lakehouse
