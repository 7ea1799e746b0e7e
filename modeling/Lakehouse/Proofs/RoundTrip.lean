import Lakehouse.Proofs.Codec
import Lakehouse.Proofs.Input
/-!
Round trips. A codec is faithful if whatever it reads of a value is read again from what it writes of
it. What is made of faithful codecs is faithful: of a record every field is found again under its name,
and a field that was left out has the value that it has when it is absent.
-/
namespace Lakehouse

open List Attempt

namespace Codec

variable {α β τ : Type}

-- What is written of the value reads as the value.
class Keeps (c : Codec α) (a : α) : Prop where
  read_write : c.read (.ofValue (c.write a)) = some a

-- All that is read of a value is kept.
class Faithful (c : Codec α) : Prop where
  keeps {v : Value} {a : α} : c.read (.ofValue v) = some a → c.Keeps a

-- Nothing but `null` is read as what is written as `null`.
class Present (c : Codec α) : Prop where
  ne_null {v : Value} {a : α} : c.read (.ofValue v) = some a → v ≠ .null → c.write a ≠ .null

instance {s : String} : text.Keeps s :=
  ⟨rfl⟩

instance : Faithful text :=
  ⟨fun _ => inferInstance⟩

instance : Present text :=
  ⟨fun _ _ => nofun⟩

instance {b : Bool} : flag.Keeps b :=
  ⟨rfl⟩

instance : Faithful flag :=
  ⟨fun _ => inferInstance⟩

instance : Present flag :=
  ⟨fun _ _ => nofun⟩

instance {n : UInt32} : count.Keeps n where
  read_write := by
    have hn : (n.toNat : Int) < UInt32.size := Int.ofNat_lt.mpr n.toNat_lt
    simp only [count, Value.nat, Input.ofValue, Input.count?, hn, Int.natCast_nonneg, decide_true,
      Bool.and_self, if_true, Int.toNat_natCast, UInt32.ofNat_toNat]

instance : Faithful count :=
  ⟨fun _ => inferInstance⟩

instance : Present count :=
  ⟨fun _ _ => nofun⟩

instance : Faithful free :=
  ⟨fun h => ⟨Input.free?_free? h⟩⟩

instance : Present free :=
  ⟨Input.free?_ne_null⟩

variable {c : Codec α}

instance : c.list.Keeps [] :=
  ⟨rfl⟩

theorem list_read (vs : List Value) :
    c.list.read (.ofValue (.array vs)) = (vs.map Input.ofValue).mapM c.read := by
  rw [← Input.ofValues_eq]
  rfl

instance [Faithful c] : Faithful c.list where
  keeps {v as} h := by
    have ⟨items, hi, hm⟩ := Option.bind_eq_some_iff.mp h
    obtain ⟨vs, rfl, rfl⟩ := Input.list?_ofValue.mp hi
    have hr := forall₂_map_left_iff.mp <| mapM_some_iff.mp hm
    constructor
    show c.list.read (.ofValue (.array (as.map c.write))) = some as
    rw [list_read, map_map]
    refine mapM_map_some fun a ha => ?_
    have ⟨_, _, hv⟩ := exists_of_forall₂_right hr ha
    exact Faithful.keeps hv |>.read_write

instance : Present c.list :=
  ⟨fun _ _ => nofun⟩

instance : c.dict.Keeps [] :=
  ⟨rfl⟩

theorem dict_read (fs : Properties) : c.dict.read (.ofValue (.object fs)) = (do
    let entries ← (fs.mapValues Input.ofValue).mapM fun (key, v) => do some (key, ← c.read v)
    some (Dict.ofEntries entries)) := by
  simp only [dict, Input.dict?_object, Option.bind_eq_bind, Option.bind_some]

theorem keeps_dict {t : Dict α} (hn : (Dict.keys t).Nodup) (h : ∀ e ∈ t, c.Keeps e.2) :
    c.dict.Keeps t where
  read_write := by
    show c.dict.read (.ofValue (.object (t.mapValues c.write))) = some t
    rw [dict_read, Dict.mapValues, Dict.mapValues, map_map, mapM_map_some]
    · exact congrArg some <| Dict.ofEntries_eq_self hn
    · exact fun e he => by simp [(h e he).read_write]

instance [Faithful c] : Faithful c.dict where
  keeps {v t} h := by
    have ⟨items, hi, hm⟩ := Option.bind_eq_some_iff.mp h
    obtain ⟨fs, rfl, rfl⟩ := Input.dict?_ofValue.mp hi
    have ⟨entries, he, ht⟩ := Option.bind_eq_some_iff.mp hm
    cases ht
    refine keeps_dict Dict.nodup_ofEntries fun e hm => ?_
    have hr := forall₂_map_left_iff.mp <| mapM_some_iff.mp he
    have ⟨f, _, hf⟩ := exists_of_forall₂_right hr (Dict.ofEntries_subset hm)
    have ⟨a, ha, hf⟩ := Option.bind_eq_some_iff.mp hf
    cases hf
    exact Faithful.keeps ha

instance : Present c.dict :=
  ⟨fun _ _ => nofun⟩

instance : c.optional.Keeps none :=
  ⟨rfl⟩

theorem optional_read {v : Value} (hv : v ≠ .null) :
    c.optional.read (.ofValue v) = (c.read (.ofValue v)).map some := by
  cases v
  case null => contradiction
  all_goals exact Option.map_eq_bind.symm

theorem keeps_optional {a : α} (h : c.Keeps a) (hn : c.write a ≠ .null) : c.optional.Keeps (some a) :=
  ⟨(optional_read hn).trans <| congrArg _ h.read_write⟩

instance [Faithful c] [Present c] : Faithful c.optional where
  keeps {v o} h := by
    by_cases hv : v = .null
    case pos =>
      cases hv
      cases h
      infer_instance
    case neg =>
      have ⟨a, ha, ho⟩ := Option.map_eq_some_iff.mp (optional_read hv ▸ h)
      exact ho ▸ keeps_optional (Faithful.keeps ha) (Present.ne_null ha hv)

theorem choice_faithful {members : List α} {word : α → String} (hn : (members.map word).Nodup) :
    Faithful (choice members word) where
  keeps {v a} h := by
    have ⟨i, _, hi⟩ := Option.bind_eq_some_iff.mp h
    have hw : (members.map word).idxOf? (word a) = some i := by
      rw [Input.idxOf?_nodup hn, getElem?_map, hi]
      rfl
    exact ⟨Option.bind_eq_some_iff.mpr ⟨i, hw, hi⟩⟩

instance {members : List α} {word : α → String} : Present (choice members word) :=
  ⟨fun _ _ => nofun⟩

end Codec

open Codec

namespace Field

variable {α : Type} {f : Field α} {c : Codec α} {name : String}

-- What stands under the name of the field once it is written.
def written (f : Field α) (a : α) : Option Value :=
  if f.omits a then none else some (f.codec.write a)

-- All that is read of a field is kept, there or not.
class Faithful (f : Field α) : Prop where
  keeps {slot : Option Value} {a : α} : f.read (slot.map .ofValue) = some a →
    f.read ((f.written a).map .ofValue) = some a

theorem faithful [f.codec.Faithful] (ha : ∀ a, f.absent = some a → f.codec.Keeps a)
    (ho : ∀ a, f.omits a → f.absent = some a) : f.Faithful where
  keeps {slot a} h := by
    have hk : f.codec.Keeps a := by
      cases slot
      case none   => exact ha a h
      case some v => exact Codec.Faithful.keeps h
    rw [written]
    split
    case isTrue hf => exact ho a hf
    case isFalse   => exact hk.read_write

instance [c.Faithful] : (required name c).Faithful :=
  have : (required name c).codec.Faithful := ‹c.Faithful›
  faithful nofun nofun

instance [hc : c.Faithful] {a : α} [ha : c.Keeps a] : (default name c a).Faithful :=
  have : (default name c a).codec.Faithful := hc
  faithful (fun _ h => Option.some.inj h ▸ ha) nofun

instance [c.Faithful] [c.Present] : (Field.optional name c).Faithful :=
  inferInstanceAs (default name c.optional none).Faithful

instance [c.Faithful] : (Field.list name c).Faithful :=
  inferInstanceAs (default name c.list []).Faithful

instance [c.Faithful] : (Field.dict name c).Faithful :=
  inferInstanceAs (default name c.dict []).Faithful

instance [c.Faithful] [c.Present] : (sparse name c).Faithful :=
  have : (sparse name c).codec.Faithful := inferInstanceAs c.optional.Faithful
  faithful (fun _ h => Option.some.inj h ▸ inferInstanceAs (c.optional.Keeps none)) fun a h => by
    cases a
    case none => rfl
    case some => cases h

instance [c.Faithful] : (sparseList name c).Faithful :=
  have : (sparseList name c).codec.Faithful := inferInstanceAs c.list.Faithful
  faithful (fun _ h => Option.some.inj h ▸ inferInstanceAs (c.list.Keeps [])) fun _ h =>
    congrArg some (isEmpty_iff.mp h).symm

instance [c.Faithful] : (sparseDict name c).Faithful :=
  have : (sparseDict name c).codec.Faithful := inferInstanceAs c.dict.Faithful
  faithful (fun _ h => Option.some.inj h ▸ inferInstanceAs (c.dict.Keeps [])) fun _ h =>
    congrArg some (isEmpty_iff.mp h).symm

end Field

namespace Fields

variable {α τ : Type} {fields : Fields τ} {t : τ}

-- What stands under each of the names once the record is written.
def written : {τ : Type} → Fields τ → τ → List (Option Value)
  | _, .nil, _ => []
  | _, .cons f rest, (a, b) => f.written a :: rest.written b

theorem written_eq (hn : fields.names.Nodup) :
    fields.written t = fields.names.map (Dict.get? (fields.write t)) := by
  induction fields
  case nil => rfl
  case cons f rest ih =>
    obtain ⟨a, b⟩ := t
    have ⟨hf, hr⟩ := nodup_cons.mp hn
    have hk : f.name ∉ Dict.keys (rest.write b) := fun hk => hf <| write_keys.subset hk
    simp only [written, names, map_cons, write]
    congr 1
    case e_head =>
      rw [Dict.get?_append, Dict.get?_eq_none hk, Option.or_none, Field.written, Field.write]
      split <;> simp [Dict.get?_cons]
    case e_tail =>
      rw [ih hr]
      refine map_congr_left fun name hm => ?_
      have hne : name ≠ f.name := fun he => hf <| he ▸ hm
      rw [Dict.get?_append, Field.write]
      split <;> simp [Dict.get?_cons, hne]

-- All that is read of the fields is kept.
class Faithful (fields : Fields τ) : Prop where
  keeps {values : List (Option Value)} {t : τ} : fields.read (Input.slots values) = some t →
    fields.read (Input.slots (fields.written t)) = some t

instance : Fields.nil.Faithful :=
  ⟨fun _ => rfl⟩

instance {f : Field α} {rest : Fields τ} [f.Faithful] [rest.Faithful] :
    (Fields.cons f rest).Faithful where
  keeps {values t} h := by
    simp only [read, Option.bind_eq_bind, Option.bind_eq_some_iff, Option.some_inj] at h
    have ⟨a, ha, b, hb, ht⟩ := h
    have hh : (Input.slots values).head?.join = values.head?.join.map .ofValue := by
      cases values <;> rfl
    have hs : (Input.slots values).tail = Input.slots values.tail := map_tail.symm
    have ha := Field.Faithful.keeps (hh ▸ ha)
    have hb := Faithful.keeps (hs ▸ hb)
    subst ht
    show (f.read ((f.written a).map .ofValue)).bind
      (fun a => (rest.read (Input.slots (rest.written b))).bind fun b => some (a, b)) = some (a, b)
    rw [ha, Option.bind_some, hb, Option.bind_some]

-- The names of the fields that may not be absent.
def required : {τ : Type} → Fields τ → List String
  | _, .nil => []
  | _, .cons f rest => if f.absent.isNone then f.name :: rest.required else rest.required

theorem required_subset {ps : Properties}
    (h : fields.read (Input.slots (fields.names.map (Dict.get? ps))) = some t) :
    fields.required ⊆ Dict.keys ps := by
  induction fields
  case nil => exact nil_subset _
  case cons f rest ih =>
    simp only [read, Option.bind_eq_bind, Option.bind_eq_some_iff, Option.some_inj] at h
    have ⟨a, ha, b, hb, _⟩ := h
    have hr : rest.required ⊆ Dict.keys ps := ih hb
    rw [required]
    split
    case isFalse => exact hr
    case isTrue hf =>
      refine cons_subset.mpr ⟨?_, hr⟩
      by_contra hk
      have ha : f.absent = some a := by
        simpa [names, Input.slots, Dict.get?_eq_none hk, Field.read] using ha
      simp [ha] at hf

end Fields

namespace Codec

variable {α β τ σ : Type} {fields : Fields τ}

theorem record_read {make : τ → α} {parts : α → τ} {ps : Properties} (hn : fields.names.Nodup)
    (hk : (Dict.keys ps).Nodup) : (record fields make parts).read (.ofValue (.object ps)) =
      (fields.read (Input.slots (fields.names.map (Dict.get? ps)))).map make := by
  simp only [record, Input.record?_object hn hk, Option.bind_eq_bind, Option.bind_some,
    Option.map_eq_bind]
  rfl

theorem record_faithful [fields.Faithful] {make : τ → α} {parts : α → τ}
    (hn : fields.names.Nodup) (hp : ∀ t, parts (make t) = t) :
    (record fields make parts).Faithful where
  keeps {v a} h := by
    simp only [record, Option.bind_eq_bind, Option.bind_eq_some_iff, Option.some_inj] at h
    obtain ⟨found, hf, t, ht, rfl⟩ := h
    obtain ⟨values, rfl⟩ := Input.record?_ofValue hf
    have hw := Fields.Faithful.keeps ht
    constructor
    show (record fields make parts).read (.ofValue (.object (fields.write (parts (make t))))) = _
    rw [record_read hn (hn.sublist Fields.write_keys), hp, ← Fields.written_eq hn, hw]
    rfl

theorem record_present {make : τ → α} {parts : α → τ} : (record fields make parts).Present :=
  ⟨fun _ _ => nofun⟩

-- A record is not read of another one that lacks a field which may not be absent.
theorem record_refuses {fields' : Fields σ} {make : τ → α} {parts : α → τ} {make' : σ → β}
    {parts' : β → σ} {b : β} (hn : fields.names.Nodup) (hn' : fields'.names.Nodup)
    (h : ¬fields.required ⊆ fields'.names) :
    (record fields make parts).read (.ofValue ((record fields' make' parts').write b)) = none := by
  show (record fields make parts).read (.ofValue (.object (fields'.write (parts' b)))) = none
  rw [record_read hn (hn'.sublist Fields.write_keys), Option.map_eq_none_iff,
    Option.eq_none_iff_forall_ne_some]
  intro t ht
  exact h <| Subset.trans (Fields.required_subset ht) Fields.write_keys.subset

theorem openRecord_read {make : τ → Properties → α} {parts : α → τ × Properties} {ps : Properties}
    (hk : (Dict.keys ps).Nodup) : (openRecord fields make parts).read (.ofValue (.object ps)) = (do
      let known ← fields.read (Input.slots (fields.names.map (Dict.get? ps)))
      let extra ← (ps.filter fun e => !fields.names.contains e.1).mapM fun e => do
        some (e.1, ← (Input.ofValue e.2).free?)
      some (make known (Dict.ofEntries extra))) := by
  simp only [openRecord, Input.openRecord?_object hk, Dict.mapValues, mapM_map,
    Function.comp_def, Input.typed?_ofValue, Option.bind_eq_bind, Option.bind_some]

-- The free entries are kept behind the fields, as long as they do not go by the names of these.
theorem keeps_openRecord {make : τ → Properties → α} {parts : α → τ × Properties} {t : τ}
    {extra : Properties} (ht : fields.read (Input.slots (fields.written t)) = some t)
    (hn : fields.names.Nodup) (hx : (Dict.keys extra).Nodup)
    (hd : Disjoint fields.names (Dict.keys extra))
    (he : ∀ e ∈ extra, (Input.ofValue e.2).free? = some e.2)
    (hp : parts (make t extra) = (t, extra)) :
    (openRecord fields make parts).Keeps (make t extra) where
  read_write := by
    have hk : (Dict.keys (fields.write t ++ extra)).Nodup := by
      rw [Dict.keys, map_append]
      exact (hn.sublist Fields.write_keys).append hx <|
        disjoint_of_subset_left Fields.write_keys.subset hd
    have hg : fields.names.map (Dict.get? (fields.write t ++ extra)) = fields.written t := by
      rw [Fields.written_eq hn]
      refine map_congr_left fun name hm => ?_
      rw [Dict.get?_append, Dict.get?_eq_none (hd hm), Option.or_none]
    have hf : (fields.write t ++ extra).filter (fun e => !fields.names.contains e.1) = extra := by
      rw [filter_append, filter_eq_nil_iff.mpr, filter_eq_self.mpr, nil_append]
      · exact fun e he => by simpa using fun hm => hd hm (mem_map_of_mem he)
      · exact fun e he => by simpa using Fields.write_keys.subset (mem_map_of_mem he)
    have hm : extra.mapM (fun e => do some (e.1, ← (Input.ofValue e.2).free?)) = some extra :=
      mapM_some_self fun e hm => by simp [he e hm]
    show (openRecord fields make parts).read (.ofValue (.object _)) = _
    rw [hp]
    simp only [Option.bind_eq_bind] at hm
    simp only [openRecord_read hk, hg, ht, hf, hm, Option.bind_eq_bind, Option.bind_some,
      Dict.ofEntries_eq_self hx]

theorem openRecord_faithful [fields.Faithful] {make : τ → Properties → α}
    {parts : α → τ × Properties} (hn : fields.names.Nodup)
    (hp : ∀ t extra, parts (make t extra) = (t, extra)) :
    (openRecord fields make parts).Faithful where
  keeps {v a} h := by
    simp only [openRecord, Option.bind_eq_bind, Option.bind_eq_some_iff, Option.some_inj] at h
    obtain ⟨⟨found, extra⟩, hf, t, ht, es, he, rfl⟩ := h
    obtain ⟨values, fs, rfl, rfl, hfs⟩ := Input.openRecord?_ofValue hf
    have hx : ∀ e ∈ Dict.ofEntries es,
        e.1 ∉ fields.names ∧ (Input.ofValue e.2).free? = some e.2 := by
      intro e hm
      have ⟨d, hd, hx⟩ := exists_of_forall₂_right (mapM_some_iff.mp he) (Dict.ofEntries_subset hm)
      obtain ⟨f, hf, rfl⟩ := mem_map.mp hd
      simp only [Input.typed?_ofValue, Option.bind_some, Option.bind_eq_some_iff, Option.some_inj] at hx
      obtain ⟨w, hw, rfl⟩ := hx
      exact ⟨hfs f hf, Input.free?_free? hw⟩
    refine keeps_openRecord (Fields.Faithful.keeps ht) hn Dict.nodup_ofEntries ?disjoint
      (fun e he => (hx e he).right) (hp _ _)
    intro name hm hk
    obtain ⟨e, he, rfl⟩ := mem_map.mp hk
    exact (hx e he).left hm

end Codec

end Lakehouse
