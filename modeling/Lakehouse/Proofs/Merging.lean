import Lakehouse.Proofs.Naming
import Lakehouse.Proofs.Required
/-!
Merged entries. An object keeps all of its entries in their order when its keys are renamed, unless two
of the keys are renamed alike: these entries become one. Under an opaque key nothing is renamed, and so
nothing is lost there.
-/
namespace Lakehouse

open List Attempt

variable {s : Stack} {g : Graph} {b : Backend} {r : Resource} {v w : Value} {fields : Properties}
variable {f t : String → String} {σ τ : List Step} {reference : Placeholder → String}

-- The steps lead below an opaque key.
def Step.Below (σ : List Step) : Prop :=
  ∃ k ∈ Step.keys σ, k ∈ Emission.opaqueKeys

instance : Decidable (Step.Below σ) :=
  inferInstanceAs (Decidable (∃ k ∈ _, _))

namespace Emission

-- No two keys of an object are renamed alike.
def Apart (f : String → String) (fields : Properties) : Prop :=
  (fields.map fun e => f e.1).Nodup

instance : Decidable (Apart f fields) :=
  inferInstanceAs (Decidable (Nodup _))

mutual

-- The objects in a value of which the keys are renamed.
def renamedObjects : Value → List Properties
  | .object fields => fields :: renamedInFields fields
  | .array items => renamedInItems items
  | .null => []
  | .bool _ => []
  | .number _ => []
  | .string _ => []
termination_by structural v => v

def renamedInItems : List Value → List Properties
  | [] => []
  | v :: rest => renamedObjects v ++ renamedInItems rest
termination_by structural vs => vs

def renamedInFields : List (String × Value) → List Properties
  | [] => []
  | (key, v) :: rest =>
    (if opaqueKeys.contains key then [] else renamedObjects v) ++ renamedInFields rest
termination_by structural fs => fs

end

mutual

-- The second value is the first one with its texts changed and its keys renamed, and has all of its
-- entries. Below an opaque key the keys are the same.
inductive Whole (t : String → String) : (String → String) → Value → Value → Prop
  | null {f : String → String} : Whole t f .null .null
  | bool {f : String → String} (b : Bool) : Whole t f (.bool b) (.bool b)
  | number {f : String → String} (n : Number) : Whole t f (.number n) (.number n)
  | string {f : String → String} (s : String) : Whole t f (.string s) (.string (t s))
  | array {f : String → String} {items items' : List Value} :
      WholeItems t f items items' → Whole t f (.array items) (.array items')
  | object {f : String → String} {fields fields' : List (String × Value)} :
      WholeFields t f fields fields' → Whole t f (.object fields) (.object fields')

inductive WholeItems (t : String → String) :
    (String → String) → List Value → List Value → Prop
  | nil {f : String → String} : WholeItems t f [] []
  | cons {f : String → String} {v v' : Value} {items items' : List Value} :
      Whole t f v v' → WholeItems t f items items' → WholeItems t f (v :: items) (v' :: items')

inductive WholeFields (t : String → String) :
    (String → String) → List (String × Value) → List (String × Value) → Prop
  | nil {f : String → String} : WholeFields t f [] []
  | schema {f : String → String} {k : String} {v v' : Value}
      {fields fields' : List (String × Value)} (ho : k ∉ opaqueKeys) :
      Whole t f v v' → WholeFields t f fields fields' →
      WholeFields t f ((k, v) :: fields) ((f k, v') :: fields')
  | user {f : String → String} {k : String} {v v' : Value}
      {fields fields' : List (String × Value)} (ho : k ∈ opaqueKeys) :
      Whole t id v v' → WholeFields t f fields fields' →
      WholeFields t f ((k, v) :: fields) ((f k, v') :: fields')

end

theorem WholeFields.keys_eq {fields fields' : Properties} : WholeFields t f fields fields' →
    Dict.keys fields' = fields.map fun e => f e.1
  | .nil           => rfl
  | .schema _ _ hs => congrArg (_ :: ·) (keys_eq hs)
  | .user _ _ hs   => congrArg (_ :: ·) (keys_eq hs)

-- Entries that are collected under renamed keys are whole if none of them is lost.
theorem whole_ofEntries_iff {entries : Properties} (hk : Dict.keys entries = fields.map fun e => f e.1) :
    Whole t f (.object fields) (.object (Dict.ofEntries entries)) ↔
      Apart f fields ∧ WholeFields t f fields entries := by
  have he (ha : Apart f fields) : Dict.ofEntries entries = entries :=
    Dict.ofEntries_eq_self <| hk ▸ ha
  constructor
  case mp =>
    intro h
    cases h
    case object h =>
      have ha : Apart f fields := by
        rw [Apart, ← h.keys_eq]
        exact Dict.nodup_ofEntries
      exact ⟨ha, he ha ▸ h⟩
  case mpr =>
    intro ⟨ha, h⟩
    rw [he ha]
    exact .object h

theorem whole_cons_iff {k : String} {v v' : Value} {fields' : Properties} :
    WholeFields t f ((k, v) :: fields) ((f k, v') :: fields') ↔
      (if k ∈ opaqueKeys then Whole t id v v' else Whole t f v v') ∧
        WholeFields t f fields fields' := by
  constructor
  case mp =>
    intro h
    cases h
    case schema ho hv hs => exact ⟨by rwa [if_neg ho], hs⟩
    case user ho hv hs   => exact ⟨by rwa [if_pos ho], hs⟩
  case mpr =>
    intro ⟨hv, hs⟩
    split at hv
    case isTrue ho  => exact .user ho hv hs
    case isFalse ho => exact .schema ho hv hs

mutual

theorem whole_substitute (v : Value) :
    Whole (Placeholder.substituteText reference) id v (Placeholder.substitute reference v) := by
  cases v <;> rw [Placeholder.substitute]
  case null          => exact .null
  case bool b        => exact .bool b
  case number n      => exact .number n
  case string s      => exact .string s
  case array items   => exact .array (wholeItems_substitute items)
  case object fields => exact .object (wholeFields_substitute fields)
termination_by structural v

theorem wholeItems_substitute (items : List Value) : WholeItems (Placeholder.substituteText reference)
    id items (Placeholder.substituteItems reference items) := by
  cases items
  case nil          => exact .nil
  case cons v items => exact .cons (whole_substitute v) (wholeItems_substitute items)
termination_by structural items

theorem wholeFields_substitute (fields : List (String × Value)) :
    WholeFields (Placeholder.substituteText reference) id fields
      (Placeholder.substituteFields reference fields) := by
  match fields with
  | []                 => exact .nil
  | (key, v) :: fields =>
    rw [Placeholder.substituteFields]
    exact whole_cons_iff.mpr ⟨by simpa using whole_substitute v, wholeFields_substitute fields⟩
termination_by structural fields

end

mutual

-- What becomes of a value is whole exactly if no two keys of an object in it are renamed alike.
theorem whole_renamed_iff (v : Value) : Whole (Placeholder.substituteText reference) f v
    (renameKeys f (Placeholder.substitute reference v)) ↔ ∀ o ∈ renamedObjects v, Apart f o := by
  cases v <;> rw [renamedObjects, Placeholder.substitute, renameKeys]
  case null | bool | number | string => exact iff_of_true (by constructor) (by simp)
  case array items =>
    rw [← wholeItems_renamed_iff items]
    exact ⟨fun | .array h => h, .array⟩
  case object fields =>
    have hk : Dict.keys (renameFields f (Placeholder.substituteFields reference fields)) =
        fields.map fun e => f e.1 := by rw [renameFields_keys, substituteFields_keys]
    rw [whole_ofEntries_iff hk, forall_mem_cons, wholeFields_renamed_iff fields]
termination_by structural v

theorem wholeItems_renamed_iff (items : List Value) :
    WholeItems (Placeholder.substituteText reference) f items
      (renameItems f (Placeholder.substituteItems reference items)) ↔
        ∀ o ∈ renamedInItems items, Apart f o := by
  cases items
  case nil => exact iff_of_true .nil (by simp [renamedInItems])
  case cons v items =>
    rw [renamedInItems, forall_mem_append, ← whole_renamed_iff v, ← wholeItems_renamed_iff items]
    exact ⟨fun | .cons h hs => ⟨h, hs⟩, fun ⟨h, hs⟩ => .cons h hs⟩
termination_by structural items

theorem wholeFields_renamed_iff (fields : List (String × Value)) :
    WholeFields (Placeholder.substituteText reference) f fields
      (renameFields f (Placeholder.substituteFields reference fields)) ↔
        ∀ o ∈ renamedInFields fields, Apart f o := by
  match fields with
  | []                 => exact iff_of_true .nil (by simp [renamedInFields])
  | (key, v) :: fields =>
    rw [renamedInFields, forall_mem_append, ← wholeFields_renamed_iff fields,
      Placeholder.substituteFields, renameFields, whole_cons_iff]
    refine and_congr_left fun _ => ?_
    by_cases ho : key ∈ opaqueKeys
    case pos => simpa [ho] using whole_substitute v
    case neg => simpa [ho] using whole_renamed_iff v
termination_by structural fields

end

theorem form_of_below (h : Step.Below σ) : form f σ v = v := by
  rw [form, if_pos]
  simpa [any_eq_true, Step.Below] using h

theorem form_of_not_below (h : ¬Step.Below σ) : form f σ v = renameKeys f v := by
  rw [form, if_neg]
  simpa [any_eq_true, Step.Below] using h

-- What an entry of the object at the end of some steps becomes.
def entryForm (f : String → String) (σ : List Step) (e : String × Value) : String × Value :=
  if Step.Below σ then e else renameEntry f e

-- An object that is put somewhere has all of its entries there, in order, or else fewer.
theorem Puts.object (h : Puts f v σ τ) (hv : v.at? σ = some (.object fields)) :
    ∃ out, (renameKeys f (Placeholder.substitute reference v)).at? τ = some (.object out) ∧
      (Step.Below σ ∨ Apart f fields →
        out = fields.map fun (k, v) => entryForm f σ (k, Placeholder.substitute reference v)) ∧
      (¬(Step.Below σ ∨ Apart f fields) → out.length < fields.length) := by
  rw [h.substitute.at?_renamed, Placeholder.at?_substitute, hv, Option.map_some, Option.map_some,
    Placeholder.substitute]
  by_cases hb : Step.Below σ
  case pos =>
    refine ⟨_, by rw [form_of_below hb], fun _ => ?_, fun hn => hn (.inl hb) |>.elim⟩
    simp only [entryForm, if_pos hb, Placeholder.substituteFields_eq]
    rfl
  case neg =>
    let entries := renameFields f (Placeholder.substituteFields reference fields)
    have hk : Dict.keys entries = fields.map fun e => f e.1 := by
      rw [renameFields_keys, substituteFields_keys]
    have hl : entries.length = fields.length := by
      simpa [Dict.keys] using congrArg length hk
    refine ⟨Dict.ofEntries entries, by rw [form_of_not_below hb]; rfl, fun ha => ?_, fun hn => ?_⟩
    · rw [Dict.ofEntries_eq_self (hk ▸ ha.resolve_left hb)]
      simp only [entries, entryForm, if_neg hb, renameFields_eq, Placeholder.substituteFields_eq,
        Dict.mapValues, List.map_map]
      rfl
    · rw [← hl]
      exact Dict.length_ofEntries_lt fun ha => hn <| .inr <| by rwa [Apart, ← hk]

theorem mem_keys_adapt {ps : Properties} {k : String} (h : k ∈ Dict.keys ps) :
    f k ∈ Dict.keys (adapt reference f ps) := by
  rw [adapt, Dict.mem_keys_ofEntries, renameFields_keys, substituteFields_keys]
  obtain ⟨e, he, rfl⟩ := mem_map.mp h
  exact mem_map.mpr ⟨e, he, rfl⟩

-- Something is required of every resource that is not a provider.
theorem adapt_ne_nil {ps : Properties} (h : prepare r b = .ok ps) (hk : r.kind ≠ .provider) :
    adapt reference f ps ≠ [] := by
  obtain ⟨field, hf⟩ : ∃ field, field ∈ required r.kind := by
    cases hr : r.kind <;> first | exact absurd hr hk | exact ⟨_, mem_cons_self⟩
  intro he
  have hm : f field ∈ Dict.keys (adapt reference f ps) := mem_keys_adapt <| mem_keys_prepared h hf
  rw [he] at hm
  contradiction

end Emission

namespace Backend

-- The properties that an entry has, without what a block says besides them.
def content? (b : Backend) (entry : Value) : Option Properties :=
  match b with
  | .pulumi    => (entry.field? "properties").bind Value.object?
  | .terraform => entry.object?.map (Dict.eraseAll · Terraform.reserved)

theorem content?_eq {entry : Value} (h : b.entry g r = .ok entry) (hp : Plain r.properties)
    (hk : r.kind ≠ .provider) :
    b.content? entry = some (Emission.adapt (b.reference g) b.key (b.taken r)) := by
  cases b
  case pulumi =>
    obtain ⟨ps, hps, hf, _⟩ := Pulumi.entry_parts h
    have hn : Emission.adapt Pulumi.reference Pulumi.camelCase ps ≠ [] := Emission.adapt_ne_nil hps hk
    rw [content?, hf, Pulumi.part, if_neg (by simpa using hn), Emission.prepare_ok hps]
    simp [Dict.get?_cons, Value.object?, reference, key, taken]
  case terraform =>
    obtain ⟨ps, hps, _, rfl⟩ := Terraform.block_ok h hp
    have ha : Dict.eraseAll (Emission.adapt (Terraform.reference g) Terraform.singular ps)
        Terraform.reserved = Emission.adapt (Terraform.reference g) Terraform.singular ps :=
      Dict.eraseAll_eq_self fun key hk => Terraform.adapt_keys hps hp hk
    have hm : Dict.eraseAll (Terraform.metaArguments g r) Terraform.reserved = [] :=
      Dict.eraseAll_eq_nil Terraform.metaArguments_keys.subset
    rw [content?, Value.object?, Option.map_some, Dict.eraseAll_append, ha, hm, append_nil,
      Emission.prepare_ok hps]
    rfl

-- The content has all that is taken from the resource, with its keys and texts in the way of the backend.
def Keeps (b : Backend) (g : Graph) (r : Resource) (content : Properties) : Prop :=
  Emission.Whole (Placeholder.substituteText (b.reference g)) b.key (.object (b.taken r))
    (.object content)

theorem keeps_adapt_iff : b.Keeps g r (Emission.adapt (b.reference g) b.key (b.taken r)) ↔
    ∀ o ∈ Emission.renamedObjects (.object (b.taken r)), Emission.Apart b.key o :=
  Emission.whole_renamed_iff (.object (b.taken r))

end Backend

theorem Compiled.exists_content {x : Expansion} {order : List Nat} {d : Document}
    (c : Compiled s x order g) (hd : g.emit b = .ok d) (hr : r ∈ g.resources) (hk : r.kind ≠ .provider) :
    ∃ entry, b.emitted? d.body r = some entry ∧
      b.content? entry = some (Emission.adapt (b.reference g) b.key (b.taken r)) := by
  obtain ⟨entry, ho, he⟩ := c.exists_entry hd hr hk
  have hp := Stack.expand_plain c.expand (c.perm.mem_iff.mp hr) hk
  exact ⟨entry, he, Backend.content?_eq ho hp hk⟩

-- An entry has all of the properties of its resource exactly if no two keys of an object among them are
-- renamed alike. An object that is emitted has all of its entries, in order, unless two of its own keys
-- are renamed alike; it has fewer of them then.
theorem Stack.emit_keeps_iff {d : Document} (h : s.compile = .ok g) (hd : g.emit b = .ok d)
    (hr : r ∈ g.resources) (hk : r.kind ≠ .provider) :
    ∃ entry content, b.emitted? d.body r = some entry ∧ b.content? entry = some content ∧
      (b.Keeps g r content ↔
        ∀ o ∈ Emission.renamedObjects (.object (b.taken r)), Emission.Apart b.key o) ∧
      ∀ σ τ fields, Emission.Puts b.key (.object (b.taken r)) σ τ →
        (Value.object (b.taken r)).at? σ = some (.object fields) →
          ∃ out, (Value.object content).at? τ = some (.object out) ∧
            (Step.Below σ ∨ Emission.Apart b.key fields → out = fields.map fun (k, v) =>
              Emission.entryForm b.key σ (k, Placeholder.substitute (b.reference g) v)) ∧
            (¬(Step.Below σ ∨ Emission.Apart b.key fields) → out.length < fields.length) := by
  obtain ⟨x, order, c⟩ := compile_compiled h
  obtain ⟨entry, he, hc⟩ := c.exists_content hd hr hk
  exact ⟨entry, _, he, hc, Backend.keeps_adapt_iff, fun _ _ _ hp hv => hp.object hv⟩

-- A job with a cluster that has its number of workers under two keys.
def doubledWorkers : Stack :=
  let spec : Properties := [("num_workers", .number (.int 1)), ("numWorkers", .number (.int 2))]
  { (default : Stack) with
    name      := "s"
    resources := { (default : Sections) with
      jobs := [{ (default : Job) with name := "j", clusters := [⟨"main", spec⟩] }] } }

theorem emit_keeps_iff_doubledWorkers : ∃ g d r entry content,
    doubledWorkers.compile = .ok g ∧ g.emit .terraform = .ok d ∧ r ∈ g.resources ∧
      r.kind ≠ .provider ∧ Backend.terraform.emitted? d.body r = some entry ∧
        Backend.terraform.content? entry = some content ∧ Backend.terraform.Keeps g r content := by
  let g := doubledWorkers.compile.toOption.getD default
  let d := (g.emit .terraform).toOption.getD default
  have hg : doubledWorkers.compile = .ok g := eq_ok_of_isSome (by decide +kernel)
  have hd : g.emit .terraform = .ok d := eq_ok_of_isSome (by decide +kernel)
  obtain ⟨r, hr, hk, ha⟩ : ∃ r ∈ g.resources, r.kind ≠ .provider ∧
      ∀ o ∈ Emission.renamedObjects (.object (Backend.terraform.taken r)),
        Emission.Apart Terraform.singular o := by
    decide +kernel
  obtain ⟨entry, content, he, hc, hi, _⟩ := Stack.emit_keeps_iff hg hd hr hk
  exact ⟨g, d, r, entry, content, hg, hd, hr, hk, he, hc, hi.mpr ha⟩

-- Both keys are put in camel case alike, and one entry is left of the two.
theorem not_keeps_doubledWorkers : ∃ g d r entry content,
    doubledWorkers.compile = .ok g ∧ g.emit .pulumi = .ok d ∧ r ∈ g.resources ∧
      r.kind ≠ .provider ∧ Backend.pulumi.emitted? d.body r = some entry ∧
        Backend.pulumi.content? entry = some content ∧ ¬Backend.pulumi.Keeps g r content ∧
          (((Value.object content).at? [.field "jobClusters", .item 0, .field "newCluster"]).bind
            Value.object?).map Dict.keys = some ["numWorkers"] := by
  let g := doubledWorkers.compile.toOption.getD default
  let d := (g.emit .pulumi).toOption.getD default
  have hg : doubledWorkers.compile = .ok g := eq_ok_of_isSome (by decide +kernel)
  have hd : g.emit .pulumi = .ok d := eq_ok_of_isSome (by decide +kernel)
  obtain ⟨r, hr, hk, ha, hw⟩ : ∃ r ∈ g.resources, r.kind ≠ .provider ∧
      (¬∀ o ∈ Emission.renamedObjects (.object (Backend.pulumi.taken r)),
        Emission.Apart Pulumi.camelCase o) ∧
      (((Value.object (Emission.adapt Pulumi.reference Pulumi.camelCase (Backend.pulumi.taken r))).at?
        [.field "jobClusters", .item 0, .field "newCluster"]).bind Value.object?).map Dict.keys =
          some ["numWorkers"] := by
    decide +kernel
  obtain ⟨_, _, c⟩ := Stack.compile_compiled hg
  obtain ⟨entry, he, hc⟩ := c.exists_content hd hr hk
  exact ⟨g, d, r, entry, _, hg, hd, hr, hk, he, hc, mt Backend.keeps_adapt_iff.mp ha, hw⟩

end Lakehouse
