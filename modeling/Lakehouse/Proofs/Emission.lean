import Lakehouse.Proofs.Inventory
/-!
Emission of dependencies. What a resource states about others is emitted with it. What follows only
from a placeholder is emitted as far as the text that holds it is.
-/
namespace Lakehouse

open List Attempt

variable {s : Stack} {g : Graph} {b : Backend} {r : Resource} {e : Edge} {id : String}

def Edge.IsReference (e : Edge) : Prop :=
  ∃ path, e.origin = .reference path

namespace Resource

theorem find?_of_mem_edges (h : e ∈ r.edges) :
    ∃ l, r.links.find? (·.target == e.dependency) = some l ∧ ⟨r.id, l.target, l.origin⟩ = e := by
  have ⟨l, hl, he⟩ := mem_map.mp h
  exact ⟨l, he ▸ find?_of_mem_distinctBy hl, he⟩

-- There is one edge to each dependency.
theorem edges_unique {e' : Edge} (h : e ∈ r.edges) (h' : e' ∈ r.edges)
    (hd : e.dependency = e'.dependency) : e = e' := by
  have ⟨l, hl, he⟩ := find?_of_mem_edges h
  have ⟨l', hl', he'⟩ := find?_of_mem_edges h'
  have hll : l = l' := Option.some.inj <| hl.symm.trans <| hd ▸ hl'
  rw [← he, ← he', hll]

-- What the resource states, before what follows from its placeholders.
def statedLinks (r : Resource) : List Link :=
  r.ownerLinks ++ r.explicitLinks ++ r.providerLinks

theorem mem_statedLinks {l : Link} (h : l ∈ r.statedLinks) :
    l.origin = .owner ∨ l.origin = .explicit ∨
      l.origin = .provider ∧ r.provider = some l.target := by
  simp only [statedLinks, mem_append] at h
  obtain (h | h) | h := h
  · obtain ⟨_, _, hl⟩ := mem_map.mp h
    exact hl ▸ .inl rfl
  · obtain ⟨_, _, hl⟩ := mem_map.mp h
    exact hl ▸ .inr (.inl rfl)
  · obtain ⟨id, hp, hl⟩ := mem_map.mp h
    exact hl ▸ .inr (.inr ⟨rfl, by simpa using hp⟩)

theorem origin_ne_reference {l : Link} (h : l ∈ r.statedLinks) (path : String) :
    l.origin ≠ .reference path := by
  obtain h | h | ⟨h, _⟩ := mem_statedLinks h <;> simp [h]

theorem mem_referenceLinks {l : Link} (h : l ∈ r.referenceLinks) :
    ∃ found ∈ Placeholder.scan r.properties, found.2.resource = l.target ∧
      l.origin = .reference found.1 := by
  have ⟨found, hf, hl⟩ := mem_map.mp h
  exact ⟨found, hf, hl ▸ rfl, hl ▸ rfl⟩

-- An edge that is no reference is a hint, or leads to the provider.
theorem stated_of_mem_edges (h : e ∈ r.edges) (hr : ¬e.IsReference) :
    e.isOrderingHint ∨ r.provider = some e.dependency := by
  have ⟨l, hl, he⟩ := find?_of_mem_edges h
  cases mem_append.mp <| mem_of_find?_eq_some hl
  case inl hm =>
    subst he
    obtain ho | ho | ⟨_, hp⟩ := mem_statedLinks hm
    · exact .inl <| by simp [Edge.isOrderingHint, ho]
    · exact .inl <| by simp [Edge.isOrderingHint, ho]
    · exact .inr hp
  case inr hm =>
    have ⟨found, _, _, ho⟩ := mem_referenceLinks hm
    exact hr ⟨found.1, he ▸ ho⟩ |>.elim

-- The provider of a resource precedes all that its placeholders refer to.
theorem not_isReference_of_provider (h : e ∈ r.edges) (hp : r.provider = some e.dependency) :
    ¬e.IsReference := by
  intro ⟨path, ho⟩
  have ⟨l, hl, he⟩ := find?_of_mem_edges h
  have hm : (⟨"options.provider", e.dependency, .provider⟩ : Link) ∈ r.statedLinks :=
    mem_append_right _ <| by simp [providerLinks, hp]
  have hf : (r.statedLinks.find? (·.target == e.dependency)).isSome :=
    find?_isSome.mpr ⟨_, hm, by simp⟩
  obtain ⟨l', hs⟩ := Option.isSome_iff_exists.mp hf
  have hll : l' = l := by
    have ha : r.links = r.statedLinks ++ r.referenceLinks := rfl
    rw [ha, find?_append, hs] at hl
    exact Option.some.inj hl
  subst he
  exact origin_ne_reference (hll ▸ mem_of_find?_eq_some hs) path ho

-- A reference has a placeholder in one of the texts.
theorem placeholder_of_isReference (h : e ∈ r.edges) (hr : e.IsReference) :
    ∃ t ∈ (Value.object r.properties).texts, ∃ p ∈ Placeholder.inText t,
      p.resource = e.dependency := by
  have ⟨l, hl, he⟩ := find?_of_mem_edges h
  have ⟨path, ho⟩ := hr
  have hm := mem_append.mp <| mem_of_find?_eq_some hl
  subst he
  cases hm
  case inl hm => exact origin_ne_reference hm path ho |>.elim
  case inr hm =>
    have ⟨found, hf, ht, _⟩ := mem_referenceLinks hm
    have ⟨t, ht', hp⟩ := Placeholder.exists_mem_scan.mp ⟨found, hf, rfl⟩
    exact ⟨t, ht', found.2, hp, ht⟩

end Resource

namespace Backend

def reference (b : Backend) (g : Graph) : Placeholder → String :=
  match b with
  | .pulumi    => Pulumi.reference
  | .terraform => Terraform.reference g

-- How the backend renames keys.
def key : Backend → String → String
  | .pulumi    => Pulumi.camelCase
  | .terraform => Terraform.singular

-- The text has a reference in the way of the backend.
def Refers (b : Backend) (g : Graph) (id t : String) : Prop :=
  match b with
  | .pulumi    => Pulumi.Refers id t
  | .terraform => Terraform.Refers g id t

-- What the backend makes of a resource.
def entry (b : Backend) (g : Graph) (r : Resource) : Except EmitError Value :=
  match b with
  | .pulumi    => Pulumi.entry g r
  | .terraform => Terraform.block g r

-- What a document has for a resource.
def emitted? (b : Backend) (body : Value) (r : Resource) : Option Value :=
  match b with
  | .pulumi    => Pulumi.emitted? body r.id
  | .terraform => (Terraform.typeName? r.kind).bind (Terraform.block? body · r.id)

-- What a document has for a resource says that it depends on the one with this id.
def Expresses (b : Backend) (g : Graph) (entry : Value) (id : String) : Prop :=
  match b with
  | .pulumi    => Pulumi.Expresses entry id
  | .terraform => Terraform.Expresses g entry id

theorem refers_substituteText {t : String} {p : Placeholder} (h : p ∈ Placeholder.inText t) :
    b.Refers g p.resource (Placeholder.substituteText (b.reference g) t) := by
  cases b
  case pulumi    => exact Pulumi.refers_substituteText h
  case terraform => exact Terraform.refers_substituteText h

end Backend

theorem Terraform.exists_typeName? {kind : Kind} (h : kind ≠ .provider) :
    ∃ type, typeName? kind = some type := by
  cases kind <;> first | contradiction | exact ⟨_, rfl⟩

namespace Compiled

variable {x : Expansion} {order : List Nat}

theorem eq_of_id_eq (c : Compiled s x order g) {q : Resource} (hr : r ∈ g.resources)
    (hq : q ∈ g.resources) (h : q.id = r.id) : q = r :=
  inj_on_of_nodup_map c.ids_nodup hq hr h

theorem mem_edges_of_dependent (c : Compiled s x order g) (hr : r ∈ g.resources) (he : e ∈ g.edges)
    (hd : e.dependent = r.id) : e ∈ r.edges := by
  have ⟨q, hq, heq⟩ := c.mem_edges_iff.mp he
  have hqr := c.eq_of_id_eq hr hq <| (Resource.dependent_of_mem_edges heq).symm.trans hd
  exact hqr ▸ heq

theorem mem_orderingHints_iff (c : Compiled s x order g) (hr : r ∈ g.resources) (he : e ∈ g.edges)
    (hd : e.dependent = r.id) : e.dependency ∈ g.orderingHints r.id ↔ e.isOrderingHint := by
  simp only [Graph.orderingHints, mem_map, mem_filter, Bool.and_eq_true, beq_iff_eq]
  constructor
  case mp =>
    intro ⟨e', ⟨he', hd', hh⟩, hi⟩
    have hm := c.mem_edges_of_dependent hr he hd
    have hm' := c.mem_edges_of_dependent hr he' hd'
    exact Resource.edges_unique hm' hm hi ▸ hh
  case mpr => exact fun hh => ⟨e, ⟨he, hd, hh⟩, rfl⟩

-- All that a resource states is emitted besides its properties.
theorem not_isReference_iff (c : Compiled s x order g) (hr : r ∈ g.resources) (he : e ∈ g.edges)
    (hd : e.dependent = r.id) : ¬e.IsReference ↔
      e.dependency ∈ g.orderingHints r.id ∨ r.provider = some e.dependency := by
  have hm := c.mem_edges_of_dependent hr he hd
  rw [c.mem_orderingHints_iff hr he hd]
  constructor
  case mp  => exact Resource.stated_of_mem_edges hm
  case mpr =>
    intro ho
    cases ho
    case inl hh =>
      intro ⟨path, ho⟩
      simp [Edge.isOrderingHint, ho] at hh
    case inr hp => exact Resource.not_isReference_of_provider hm hp

-- Whatever a resource is provided by, or has as a hint, can be addressed.
theorem addressable_of_stated (c : Compiled s x order g) (hr : r ∈ g.resources)
    (h : id ∈ g.orderingHints r.id ∨ r.provider = some id) : Ident.isAddressable id := by
  apply c.addressable
  cases h
  case inl h =>
    simp only [Graph.orderingHints, mem_map, mem_filter, Bool.and_eq_true, beq_iff_eq] at h
    have ⟨e, ⟨he, hd, _⟩, hi⟩ := h
    have hm := Resource.exists_edge_iff.mp ⟨e, c.mem_edges_of_dependent hr he hd, hi⟩
    exact c.mem_of_mentions hr hm |>.left
  case inr h => exact c.mem_of_mentions hr (.inr <| .inr <| .inl h) |>.left

theorem exists_entry {d : Document} (c : Compiled s x order g) (hd : g.emit b = .ok d)
    (hr : r ∈ g.resources) (hk : r.kind ≠ .provider) :
    ∃ entry, b.entry g r = .ok entry ∧ b.emitted? d.body r = some entry := by
  cases b
  case pulumi => exact Pulumi.body_ok (Graph.emit_ok hd) c.ids_nodup hr
  case terraform =>
    have ⟨type, ht⟩ := Terraform.exists_typeName? hk
    have ⟨block, ho, he⟩ := Terraform.body_ok (Graph.emit_ok hd) c.ids_nodup hr ht
    exact ⟨block, ho, by simpa [Backend.emitted?, ht] using he⟩

-- What a document says of a dependency, for every resource that is not a provider.
theorem expresses_iff {d : Document} (c : Compiled s x order g) (hd : g.emit b = .ok d)
    (hr : r ∈ g.resources) (hk : r.kind ≠ .provider) :
    ∃ entry, b.emitted? d.body r = some entry ∧
      ∀ id, b.Expresses g entry id ↔ id ∈ g.orderingHints r.id ∨ r.provider = some id ∨
        ∃ t ∈ Emission.carriedTexts r b b.key,
          b.Refers g id (Placeholder.substituteText (b.reference g) t) := by
  have ⟨entry, ho, he⟩ := c.exists_entry hd hr hk
  refine ⟨entry, he, fun _ => ?_⟩
  cases b
  case pulumi    => exact Pulumi.expresses_iff ho
  case terraform =>
    have hp := Stack.expand_plain c.expand (c.perm.mem_iff.mp hr) hk
    exact Terraform.expresses_iff ho hp fun _ => c.addressable_of_stated hr

end Compiled

-- An emitted entry expresses an edge unless the edge is a reference of which no text is left.
theorem Stack.emit_expresses {d : Document} (h : s.compile = .ok g) (hd : g.emit b = .ok d)
    (he : e ∈ g.edges) (hr : r ∈ g.resources) (hi : r.id = e.dependent) (hk : r.kind ≠ .provider) :
    ∃ entry, b.emitted? d.body r = some entry ∧
      (b.Expresses g entry e.dependency ↔ ¬e.IsReference ∨
        ∃ t ∈ Emission.carriedTexts r b b.key,
          b.Refers g e.dependency (Placeholder.substituteText (b.reference g) t)) ∧
      ((∃ t ∈ Emission.carriedTexts r b b.key, ∃ p ∈ Placeholder.inText t,
        p.resource = e.dependency) → b.Expresses g entry e.dependency) ∧
      ((∀ t ∈ (Value.object r.properties).texts, t ∈ Emission.carriedTexts r b b.key) →
        b.Expresses g entry e.dependency) := by
  have ⟨x, order, c⟩ := compile_compiled h
  have ⟨entry, hb, hx⟩ := c.expresses_iff hd hr hk
  have hiff : b.Expresses g entry e.dependency ↔ ¬e.IsReference ∨
      ∃ t ∈ Emission.carriedTexts r b b.key,
        b.Refers g e.dependency (Placeholder.substituteText (b.reference g) t) := by
    rw [hx, c.not_isReference_iff hr he hi.symm, or_assoc]
  have hp : (∃ t ∈ Emission.carriedTexts r b b.key, ∃ p ∈ Placeholder.inText t,
      p.resource = e.dependency) → b.Expresses g entry e.dependency := by
    intro ⟨t, ht, p, hp, hpr⟩
    exact hiff.mpr <| .inr ⟨t, ht, hpr ▸ Backend.refers_substituteText hp⟩
  refine ⟨entry, hb, hiff, hp, fun hc => ?_⟩
  by_cases href : e.IsReference
  case neg => exact hiff.mpr <| .inl href
  case pos =>
    have hm := c.mem_edges_of_dependent hr he hi.symm
    have ⟨t, ht, hpl⟩ := Resource.placeholder_of_isReference hm href
    exact hp ⟨t, hc t ht, hpl⟩

-- A notebook whose language refers to a group.
def notebookOfGroup : Stack :=
  { (default : Stack) with
    resources := { (default : Sections) with
      groups    := [{ (default : Group) with displayName := "a" }]
      notebooks := [{ (default : Notebook) with
        source       := "x.py"
        path         := some "/x.py"
        language     := some "$\x7bresources.group-a.display_name\x7d"
        resourceName := some "notebook" }] } }

theorem emit_expresses_notebookOfGroup : ∃ g d e r entry, notebookOfGroup.compile = .ok g ∧
    g.emit .pulumi = .ok d ∧ e ∈ g.edges ∧ e.IsReference ∧ r ∈ g.resources ∧ r.id = e.dependent ∧
      r.kind ≠ .provider ∧ Backend.pulumi.emitted? d.body r = some entry ∧
        Backend.pulumi.Expresses g entry e.dependency := by
  let g := notebookOfGroup.compile.toOption.getD default
  let d := (g.emit .pulumi).toOption.getD default
  let e : Edge := ⟨"notebook", "group-a", .reference "language"⟩
  have hg : notebookOfGroup.compile = .ok g := eq_ok_of_isSome (by decide +kernel)
  have hd : g.emit .pulumi = .ok d := eq_ok_of_isSome (by decide +kernel)
  have he : e ∈ g.edges := by decide +kernel
  have ⟨r, hr, hi, hk, ht⟩ : ∃ r ∈ g.resources, r.id = e.dependent ∧ r.kind ≠ .provider ∧
      ∃ t ∈ Emission.carriedTexts r .pulumi Pulumi.camelCase, ∃ p ∈ Placeholder.inText t,
        p.resource = e.dependency := by
    decide +kernel
  have ⟨entry, hn, _, hp, _⟩ := Stack.emit_expresses hg hd he hr hi hk
  exact ⟨g, d, e, r, entry, hg, hd, he, ⟨_, rfl⟩, hr, hi, hk, hn, hp ht⟩

-- A configuration has no place for the language of a notebook, nor for what it refers to.
theorem not_expresses_language : ∃ g d e r entry, notebookOfGroup.compile = .ok g ∧
    g.emit .terraform = .ok d ∧ e ∈ g.edges ∧ r ∈ g.resources ∧ r.id = e.dependent ∧
      r.kind ≠ .provider ∧ Backend.terraform.emitted? d.body r = some entry ∧
        ¬Backend.terraform.Expresses g entry e.dependency := by
  let g := notebookOfGroup.compile.toOption.getD default
  let d := (g.emit .terraform).toOption.getD default
  let e : Edge := ⟨"notebook", "group-a", .reference "language"⟩
  have hg : notebookOfGroup.compile = .ok g := eq_ok_of_isSome (by decide +kernel)
  have hd : g.emit .terraform = .ok d := eq_ok_of_isSome (by decide +kernel)
  have he : e ∈ g.edges := by decide +kernel
  have ⟨r, hr, hi, hk, entry, hn, ho, hp, ht⟩ : ∃ r ∈ g.resources, r.id = e.dependent ∧
      r.kind ≠ .provider ∧ ∃ entry ∈ Backend.terraform.emitted? d.body r,
        (entry.field? "depends_on").isNone ∧ (entry.field? "provider").isNone ∧
          ∀ t ∈ entry.texts, '$' ∉ t.toList := by
    decide +kernel
  refine ⟨g, d, e, r, entry, hg, hd, he, hr, hi, hk, hn, ?_⟩
  intro h
  obtain ⟨_, h, _⟩ | h | ⟨t, htm, href⟩ := h
  · simp [h] at ho
  · simp [h] at hp
  · exact ht t htm href.dollar_mem

end Lakehouse
