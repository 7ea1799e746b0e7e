import Lakehouse.Proofs.CamelCase
import Lakehouse.Proofs.Emission
/-!
Names of emitted values. A backend renames the keys of properties and rewrites the attributes of
placeholders, each in its own way. The two agree unless a key tells them apart.
-/
namespace Lakehouse

open List Attempt

variable {s : Stack} {g : Graph} {b : Backend} {r : Resource} {p q : Path} {v : Value}
variable {k : String}

namespace Terraform

theorem singular_eq_self : singular k = k ↔ k ∉ Dict.keys singulars := by
  have hn : ∀ k ∈ Dict.keys singulars, singular k ≠ k := by decide
  constructor
  case mp  => exact fun h hm => hn k hm h
  case mpr => exact fun h => by rw [singular, Dict.get?_eq_none h, Option.getD_none]

theorem isKey_singular (hk : IsKey k) : IsKey (singular k) := by
  have hs : ∀ k ∈ Dict.keys singulars, IsKey (singular k) := by decide
  by_cases hm : k ∈ Dict.keys singulars
  case pos => exact hs k hm
  case neg => rwa [singular_eq_self.mpr hm]

end Terraform

namespace Path

-- Where renaming the keys of properties moves what is at a path.
def moved (f : String → String) (p : Path) : Path where
  first := f p.first
  rest  := if Emission.opaqueKeys.contains p.first then p.rest else Step.moved f p.rest

end Path

namespace Backend

-- How the backend rewrites an attribute.
def rewritten : Backend → Path → Path
  | .pulumi, p    => ⟨Pulumi.camelCase p.first, p.rest.map (Step.rename Pulumi.camelTail)⟩
  | .terraform, p => p

def address (b : Backend) (g : Graph) (id : String) : String :=
  match b with
  | .pulumi    => id
  | .terraform => Terraform.address g id

-- The native text for what is at a path of a resource.
def native (b : Backend) (g : Graph) (id : String) (p : Path) : String :=
  "$\x7b" ++ b.address g id ++ "." ++ p.text ++ "\x7d"

-- The properties that a backend takes from a resource.
def taken (b : Backend) (r : Resource) : Properties :=
  Dict.eraseAll r.properties (Emission.excluded r.kind b)

-- What they become.
def adapted (b : Backend) (g : Graph) (r : Resource) : Value :=
  Emission.renameKeys b.key <| Placeholder.substitute (b.reference g) <| .object (b.taken r)

-- What is at a path of the emitted properties.
def at? (b : Backend) (entry : Value) (p : Path) : Option Value :=
  match b with
  | .pulumi    => (entry.field? "properties").bind (·.at? p.steps)
  | .terraform => entry.at? p.steps

-- What is at the first path is emitted at the second one.
def Puts (b : Backend) (r : Resource) (p q : Path) : Prop :=
  Emission.Puts b.key (.object (b.taken r)) p.steps q.steps

-- What a value at a path is emitted as.
def form (b : Backend) (g : Graph) (p : Path) (v : Value) : Value :=
  Emission.form b.key p.steps (Placeholder.substitute (b.reference g) v)

-- The placeholder for the first path is rendered as a text for the second one, where the entry has
-- what has become of the value at the first.
structure Names (b : Backend) (g : Graph) (r : Resource) (entry : Value) (p q : Path) : Prop where
  rendered : Placeholder.substituteText (b.reference g) (Placeholder.attr r.id p.text) =
    b.native g r.id q
  puts     : b.Puts r p q
  found    : b.at? entry q = ((Value.object (b.taken r)).at? p.steps).map (b.form g p)

-- No key of the path tells the renaming of properties and the rewriting of attributes apart.
def Regular : Backend → Path → Prop
  | .pulumi, p    => (∀ k ∈ (Step.schemaKeys p.keys).tail, k.toList.head? ≠ some '_') ∧
    ∀ k ∈ Step.userKeys p.keys, '_' ∉ k.toList
  | .terraform, p => ∀ k ∈ Step.schemaKeys p.keys, k ∉ Dict.keys Terraform.singulars

theorem Puts.eq_moved (h : b.Puts r p q) : q = p.moved b.key :=
  Path.steps_inj <| Emission.Puts.eq_moved h

theorem isKey_key (hk : IsKey k) : IsKey (b.key k) := by
  cases b
  case pulumi    => exact Pulumi.isKey_camelCase hk
  case terraform => exact Terraform.isKey_singular hk

theorem isKey_moved (hp : p.Written) : ∀ k ∈ (p.moved b.key).keys, IsKey k :=
  Step.isKey_moved (fun _ => isKey_key) hp.keys

theorem isKey_rewritten (hp : p.Written) : ∀ k ∈ (b.rewritten p).keys, IsKey k := by
  cases b
  case pulumi =>
    have ⟨hf, hr⟩ := forall_mem_cons.mp hp.keys
    have hs : (rewritten .pulumi p).keys =
        Pulumi.camelCase p.first :: (Step.keys p.rest).map Pulumi.camelTail :=
      congrArg (_ :: ·) Step.keys_map_rename
    rw [hs]
    refine forall_mem_cons.mpr ⟨Pulumi.isKey_camelCase hf, forall_mem_map.mpr fun k hk => ?_⟩
    exact Pulumi.isKey_camelTail (hr k hk)
  case terraform => exact hp.keys

theorem reference_path {id : String} :
    b.reference g ⟨id, some p.text⟩ = b.native g id (b.rewritten p) := by
  cases b
  case pulumi    => simp [reference, Pulumi.reference, native, address, rewritten, Pulumi.camelCase_text]
  case terraform => rfl

-- The rendered text of a placeholder.
theorem substituteText_attr {id : String} (hi : Ident.isAddressable id) (hp : p.Written) :
    Placeholder.substituteText (b.reference g) (Placeholder.attr id p.text) =
      b.native g id (b.rewritten p) := by
  have hw : Placeholder.WellFormed ⟨id, some p.text⟩ :=
    ⟨hi, fun _ h => Option.some.inj h ▸ hp.isAttribute⟩
  rw [Placeholder.attr, Placeholder.substituteText_text hw, reference_path]

theorem native_inj {id : String} : b.native g id p = b.native g id q ↔ p.text = q.text := by
  simp [native, String.append_assoc]

theorem rewritten_eq_moved (hp : p.Written) : b.rewritten p = p.moved b.key ↔ b.Regular p := by
  cases b
  case pulumi =>
    obtain ⟨first, rest⟩ := p
    have ⟨_, hr⟩ := forall_mem_cons.mp hp.keys
    have hu : ∀ ks ⊆ Step.keys rest, (∀ k ∈ ks, Pulumi.camelTail k = k) ↔ ∀ k ∈ ks, '_' ∉ k.toList :=
      fun ks hs => forall₂_congr fun k hm => Pulumi.camelTail_eq_self (hr k <| hs hm)
    have hs : ∀ ks ⊆ Step.keys rest, (∀ k ∈ ks, Pulumi.camelTail k = Pulumi.camelCase k) ↔
        ∀ k ∈ ks, k.toList.head? ≠ some '_' :=
      fun ks hs => forall₂_congr fun k hm => Pulumi.camelTail_eq_camelCase (hr k <| hs hm)
    by_cases ho : first ∈ Emission.opaqueKeys
    case pos =>
      simp [rewritten, Path.moved, key, Regular, Path.keys, Path.steps, Step.keys, Step.schemaKeys,
        Step.userKeys, ho, Step.map_rename_eq_self, hu]
    case neg =>
      have hu := hu _ fun _ => Step.mem_of_mem_userKeys
      have hs := hs _ fun _ => Step.mem_of_mem_schemaKeys
      simp [rewritten, Path.moved, key, Regular, Path.keys, Path.steps, Step.keys, Step.schemaKeys,
        Step.userKeys, ho, Step.map_rename_eq_moved, hu, hs]
  case terraform =>
    have hm := Step.map_rename_eq_moved (f := Terraform.singular) (g := id) (σ := p.steps)
    rw [Step.map_rename_eq_self (g := id) |>.mpr fun _ _ => rfl] at hm
    have hs : p = p.moved Terraform.singular ↔ p.steps = Step.moved Terraform.singular p.steps :=
      ⟨congrArg Path.steps, Path.steps_inj (q := p.moved Terraform.singular)⟩
    simp only [rewritten, key, Regular, Path.keys, hs, hm, ← Terraform.singular_eq_self, id_eq, eq_comm,
      implies_true, and_true]

end Backend

theorem Pulumi.at?_entry {e : Value} (h : entry g r = .ok e) :
    Backend.pulumi.at? e q = (Backend.pulumi.adapted g r).at? q.steps := by
  have ⟨ps, hp, hf, _⟩ := entry_parts h
  rw [Emission.prepare_ok hp] at hf
  simp only [Backend.at?, Path.steps, Value.at?, hf, ← Option.bind_assoc, part_field?]
  rfl

-- Nothing that a block has besides takes the place of a property.
theorem Terraform.at?_block {e : Value} (h : block g r = .ok e) (hp : Plain r.properties)
    (hv : (Backend.terraform.adapted g r).at? q.steps = some v) :
    Backend.terraform.at? e q = some v := by
  have ⟨ps, hps, _, he⟩ := block_ok h hp
  rw [Emission.prepare_ok hps] at he
  have ⟨w, hw, hv⟩ := Option.bind_eq_some_iff.mp hv
  have hf : e.field? q.first = some w := by
    simp only [he, Value.field?, Value.object?, Option.bind_some, Dict.get?_append]
    exact Option.or_eq_some_iff.mpr (.inl hw)
  rw [Backend.at?, Path.steps, Value.at?, hf, Option.bind_some]
  exact hv

-- What an entry has for the properties is what they have become.
theorem Compiled.at?_emitted {x : Expansion} {order : List Nat} {d : Document}
    (c : Compiled s x order g) (hd : g.emit b = .ok d) (hr : r ∈ g.resources) (hk : r.kind ≠ .provider) :
    ∃ entry, b.emitted? d.body r = some entry ∧
      ∀ q v, (b.adapted g r).at? q.steps = some v → b.at? entry q = some v := by
  have ⟨entry, ho, he⟩ := c.exists_entry hd hr hk
  refine ⟨entry, he, fun _ _ hv => ?_⟩
  cases b
  case pulumi    => exact (Pulumi.at?_entry ho).trans hv
  case terraform =>
    exact Terraform.at?_block ho (Stack.expand_plain c.expand (c.perm.mem_iff.mp hr) hk) hv

-- Where a value is emitted, it is found, and nothing else is emitted there. The rendered text for the
-- value leads there unless a key of its path tells keys and attributes apart.
theorem Stack.emit_names {d : Document} (h : s.compile = .ok g) (hd : g.emit b = .ok d)
    (hr : r ∈ g.resources) (hk : r.kind ≠ .provider) (hp : p.Written)
    (hv : (Value.object (b.taken r)).at? p.steps = some v) :
    ∃ entry, b.emitted? d.body r = some entry ∧
      (∀ q, b.Puts r p q → b.at? entry q = some (b.form g p v) ∧ ∀ p', b.Puts r p' q → p' = p) ∧
      ((∃ q, b.Names g r entry p q) ↔ (∃ q, b.Puts r p q) ∧ b.Regular p) := by
  have ⟨x, order, c⟩ := compile_compiled h
  have ⟨entry, he, hat⟩ := c.at?_emitted hd hr hk
  have hf : ∀ q, b.Puts r p q → b.at? entry q = some (b.form g p v) := by
    intro q hq
    apply hat
    rw [Backend.adapted, hq.substitute.at?_renamed, Placeholder.at?_substitute, hv]
    rfl
  have ht := b.substituteText_attr (g := g) (c.addressable <| mem_map_of_mem hr) hp
  refine ⟨entry, he, fun q hq => ⟨hf q hq, fun p' hq' => ?_⟩, ?_⟩
  case refine_1 => exact Path.steps_inj <| hq'.source_eq hq
  case refine_2 =>
    rw [← Backend.rewritten_eq_moved hp]
    constructor
    case mp =>
      intro ⟨q, hn⟩
      have hq := Backend.native_inj.mp <| ht.symm.trans hn.rendered
      rw [hn.puts.eq_moved] at hq
      refine ⟨⟨q, hn.puts⟩, ?_⟩
      exact Path.text_inj (Backend.isKey_rewritten hp) (Backend.isKey_moved hp) |>.mp hq
    case mpr =>
      intro ⟨⟨q, hq⟩, hn⟩
      exact ⟨q, ht.trans <| by rw [hn, hq.eq_moved], hq, by rw [hf q hq, hv]; rfl⟩

-- A job with two tags, and a group that is called by one of them.
def taggedJob : Stack :=
  { (default : Stack) with
    name      := "s"
    resources := { (default : Sections) with
      groups := [{ (default : Group) with
        displayName  := "$\x7bresources.job-j.tags.cost_center\x7d"
        resourceName := some "g" }]
      jobs   := [{ (default : Job) with
        name := "j"
        tags := [("team", "data"), ("cost_center", "x")] }] } }

theorem emit_names_taggedJob : ∃ g d r entry q, taggedJob.compile = .ok g ∧ g.emit .pulumi = .ok d ∧
    r ∈ g.resources ∧ r.kind ≠ .provider ∧ Path.Written ⟨"tags", [.field "team"]⟩ ∧
      Backend.pulumi.emitted? d.body r = some entry ∧
        Backend.pulumi.Names g r entry ⟨"tags", [.field "team"]⟩ q := by
  let g := taggedJob.compile.toOption.getD default
  let d := (g.emit .pulumi).toOption.getD default
  let p : Path := ⟨"tags", [.field "team"]⟩
  have hg : taggedJob.compile = .ok g := eq_ok_of_isSome (by decide +kernel)
  have hd : g.emit .pulumi = .ok d := eq_ok_of_isSome (by decide +kernel)
  have hp : p.Written := ⟨by decide, by decide⟩
  have ⟨r, hr, hk, hv, hn, ht⟩ : ∃ r ∈ g.resources, r.kind ≠ .provider ∧
      ((Value.object (Backend.pulumi.taken r)).at? p.steps).isSome ∧
        ((Backend.pulumi.taken r).map fun e => Pulumi.camelCase e.1).Nodup ∧
          "tags" ∈ Dict.keys (Backend.pulumi.taken r) := by
    decide +kernel
  have ⟨v, hv⟩ := Option.isSome_iff_exists.mp hv
  have ⟨entry, he, _, hi⟩ := Stack.emit_names hg hd hr hk hp hv
  have ⟨q, hq⟩ := hi.mpr ⟨⟨p, .user (.of_nodup hn ht) (by decide)⟩, by decide, by decide⟩
  exact ⟨g, d, r, entry, q, hg, hd, hr, hk, hp, he, hq⟩

-- The name of a tag stays as it is in a program, but not in what refers to it.
theorem not_names_costCenter : ∃ g d r entry v, taggedJob.compile = .ok g ∧ g.emit .pulumi = .ok d ∧
    r ∈ g.resources ∧ r.kind ≠ .provider ∧ Path.Written ⟨"tags", [.field "cost_center"]⟩ ∧
      (Value.object (Backend.pulumi.taken r)).at? [.field "tags", .field "cost_center"] = some v ∧
        Backend.pulumi.emitted? d.body r = some entry ∧
          ¬∃ q, Backend.pulumi.Names g r entry ⟨"tags", [.field "cost_center"]⟩ q := by
  let g := taggedJob.compile.toOption.getD default
  let d := (g.emit .pulumi).toOption.getD default
  let p : Path := ⟨"tags", [.field "cost_center"]⟩
  have hg : taggedJob.compile = .ok g := eq_ok_of_isSome (by decide +kernel)
  have hd : g.emit .pulumi = .ok d := eq_ok_of_isSome (by decide +kernel)
  have ⟨r, hr, hk, hv, he, ht⟩ : ∃ r ∈ g.resources, r.kind ≠ .provider ∧
      ((Value.object (Backend.pulumi.taken r)).at? p.steps).isSome ∧
        (Backend.pulumi.emitted? d.body r).isSome ∧
          Placeholder.substituteText (Backend.pulumi.reference g) (Placeholder.attr r.id p.text) ≠
            Backend.pulumi.native g r.id (p.moved Pulumi.camelCase) := by
    decide +kernel
  have ⟨v, hv⟩ := Option.isSome_iff_exists.mp hv
  have ⟨entry, he⟩ := Option.isSome_iff_exists.mp he
  refine ⟨g, d, r, entry, v, hg, hd, hr, hk, ⟨by decide, by decide⟩, hv, he, ?_⟩
  intro ⟨q, hn⟩
  have hq : q = p.moved Pulumi.camelCase := hn.puts.eq_moved
  exact ht <| hq ▸ hn.rendered

end Lakehouse
