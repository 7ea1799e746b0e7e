import Lakehouse.Proofs.Binding
/-!
Groups of resources. What a declaration expands to begins with a primary resource, and every auxiliary
resource in it is bound to the last primary one before it; it takes its id, its provider and the order
of its replacement from there, and nothing of the other options.
-/
namespace Lakehouse

open List Attempt

variable {c : Context} {d : Declaration} {r owner : Resource} {rs pre before rest : List Resource}

-- The last resource of the list that has no owner.
def LastPrimary (rs : List Resource) (p : Resource) : Prop :=
  ∃ pre bound, rs = pre ++ p :: bound ∧ p.owner = none ∧ ∀ r ∈ bound, r.owner ≠ none

-- Primary resources, each directly followed by the auxiliary ones that are bound to it.
structure Grouped (rs : List Resource) : Prop where
  primary : ∃ p rest, rs = p :: rest ∧ p.owner = none
  bound   : ∀ before r after, rs = before ++ r :: after → r.owner ≠ none →
    ∃ p, LastPrimary before p ∧ r.BoundTo p
  -- What is owned by an id is owned by a primary resource, also where an auxiliary one has this id.
  owners  : ∀ a ∈ rs, ∀ r ∈ rs, r.owner = some a.id →
    (∃ p ∈ rs, p.id = a.id ∧ p.owner = none) ∧ ((idsOf rs).Nodup → a.owner = none)

theorem LastPrimary.append (h : LastPrimary before owner) : LastPrimary (pre ++ before) owner := by
  obtain ⟨front, bound, rfl, ho, hb⟩ := h
  exact ⟨pre ++ front, bound, by simp, ho, hb⟩

namespace Expansion

theorem Bound.owner_ne (h : Bound owner r) : r.owner ≠ none :=
  fun hn => nomatch h.boundTo.owner.symm.trans hn

-- Within a family, the owner is the only primary resource.
theorem Family.bound (h : Family owner rs) (ho : owner.owner = none) {after : List Resource}
    (hr : rs = before ++ r :: after) (hn : r.owner ≠ none) :
    LastPrimary before owner ∧ r.BoundTo owner := by
  obtain ⟨bound, rfl, hb⟩ := h
  cases before
  case nil =>
    cases hr
    exact hn ho |>.elim
  case cons q before =>
    cases hr
    refine ⟨⟨[], before, rfl, ho, fun m hm => (hb m ?_).owner_ne⟩, (hb r ?_).boundTo⟩
    · simp [hm]
    · simp

theorem Families.bound (h : Families c d rs) {after : List Resource}
    (hr : rs = before ++ r :: after) (hn : r.owner ≠ none) :
    ∃ p, LastPrimary before p ∧ r.BoundTo p := by
  induction h generalizing before
  case nil => simp at hr
  case cons owner own rest hp hf _ ih =>
    -- The resource stands in one of the families that follow, or else in this one.
    obtain ⟨later, rfl, hl⟩ | ⟨later, ho, hl⟩ := append_eq_append_iff.mp hr
    · obtain ⟨p, hp, hb⟩ := ih hl
      exact ⟨p, hp.append, hb⟩
    · cases later
      case nil =>
        -- It begins what follows, and so has nothing of it before.
        have hl : rest = [] ++ r :: after := hl.symm
        have ho : before = own ++ [] := by simp [ho]
        obtain ⟨p, hp, hb⟩ := ih hl
        exact ⟨p, ho ▸ hp.append, hb⟩
      case cons q later =>
        cases hl
        exact ⟨owner, hf.bound hp.owner_eq ho hn⟩

theorem Families.primary (h : Families c d rs) (hne : rs ≠ []) :
    ∃ p rest, rs = p :: rest ∧ p.owner = none := by
  cases h
  case nil => contradiction
  case cons hp hf _ =>
    obtain ⟨bound, rfl, _⟩ := hf
    exact ⟨_, _, rfl, hp.owner_eq⟩

end Expansion

theorem Declaration.exists_option (d : Declaration) : ∃ o, o ∈ d.options := by
  cases d <;> exact ⟨_, mem_cons_self⟩

theorem Declaration.expand_grouped (h : d.expand c = .ok rs) : Grouped rs := by
  have hf := expand_families h
  obtain ⟨o, ho⟩ := d.exists_option
  obtain ⟨_, hm, _⟩ := Declaration.carried h ho
  have bound (before : List Resource) (r : Resource) (after : List Resource)
      (hr : rs = before ++ r :: after) (hn : r.owner ≠ none) :
      ∃ p, LastPrimary before p ∧ r.BoundTo p :=
    hf.bound hr hn
  refine ⟨hf.primary (ne_nil_of_mem hm), bound, fun a ha r hr ho => ?_⟩
  obtain ⟨before, after, hb⟩ := append_of_mem hr
  obtain ⟨p, ⟨pre, mid, hp, hn, _⟩, ht⟩ := bound before r after hb (by simp [ho])
  have hpr : p ∈ rs := by simp [hb, hp]
  have hid : p.id = a.id := Option.some.inj <| ht.owner.symm.trans ho
  exact ⟨⟨p, hpr, hid, hn⟩, fun hd => inj_on_of_nodup_map hd hpr ha hid ▸ hn⟩

-- A catalog with grants on all of its levels.
def grantedCatalog : Declaration :=
  let grants : List Grant := [⟨"team", ["USE"]⟩]
  let table : Table := { (default : Table) with name := "t", grants }
  let volume : Volume := { (default : Volume) with name := "v", grants }
  let schema : Schema := { (default : Schema) with
    name := "s", grants, tables := [table], volumes := [volume] }
  .catalog { (default : Catalog) with name := "c", grants, schemas := [schema] }

theorem expand_grouped_grantedCatalog : ∃ rs, grantedCatalog.expand default = .ok rs ∧
    rs.map (·.owner) = [none, some "catalog-c", none, some "schema-c-s", none, some "table-c-s-t",
      none, some "volume-c-s-v"] ∧ Grouped rs := by
  let rs := (grantedCatalog.expand default).toOption.getD default
  have hx : grantedCatalog.expand default = .ok rs := eq_ok_of_isSome (by decide +kernel)
  exact ⟨rs, hx, by decide +kernel, Declaration.expand_grouped hx⟩

end Lakehouse
