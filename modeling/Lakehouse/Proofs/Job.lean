import Lakehouse.Expansion.Job
import Lakehouse.Proofs.Attempt
import Lakehouse.Proofs.Distinct
import Lakehouse.Proofs.NamedOrder
/-!
Jobs. The check of a job accepts exactly the valid ones: every task has a key of its own, whatever a
task names is there, and no task waits for itself. There is then nothing but access controls that
keeps the job from being expanded. Where tasks wait for each other, a circuit of them is told.
-/
namespace Lakehouse

open List Attempt

variable {j : Job} {t : Task} {c : Context} {owner : Resource} {field attr : String}
variable {controls : List AccessControl} {e : CompileError}

namespace AccessControl

def NamesOne (a : AccessControl) : Prop :=
  ([a.groupName, a.userName, a.servicePrincipalName].filterMap id).length = 1

theorem principal?_isNone_iff {a : AccessControl} : a.principal?.isNone ↔ ¬a.NamesOne := by
  have ⟨group, user, servicePrincipal, _⟩ := a
  cases group <;> cases user <;> cases servicePrincipal <;> simp [principal?, NamesOne]

theorem namesOne_withLevel {a : AccessControl} {level : String} :
    (a.withLevel level).NamesOne ↔ a.NamesOne :=
  Iff.rfl

end AccessControl

namespace Expansion

theorem checkPrincipals_ok_iff {id : String} :
    checkPrincipals id controls = .ok () ↔ ∀ a ∈ controls, a.NamesOne := by
  have hn : controls.findIdx? (·.principal?.isNone) = none ↔ ∀ a ∈ controls, a.NamesOne := by
    simp only [findIdx?_eq_none_iff, ← Bool.not_eq_true, AccessControl.principal?_isNone_iff, not_not]
  rw [← hn, checkPrincipals]
  cases controls.findIdx? (·.principal?.isNone) <;> simp

-- A resource can be made with its permissions exactly when each is for one principal.
theorem withPermissions_isOk_iff :
    (∃ rs, (do return owner :: (← permissions owner field attr controls) :
      Except CompileError (List Resource)) = .ok rs) ↔ ∀ a ∈ controls, a.NamesOne := by
  cases controls
  case nil => simp [permissions]
  case cons a rest =>
    rw [← checkPrincipals_ok_iff]
    constructor
    case mp =>
      intro ⟨_, h⟩
      have ⟨_, hp, _⟩ := bind_ok_iff.mp h
      have ⟨(), hc, _⟩ := bind_ok_iff.mp hp
      exact hc
    case mpr => exact fun hc => ⟨_, bind_ok_iff.mpr ⟨_, bind_ok_iff.mpr ⟨(), hc, rfl⟩, rfl⟩⟩

theorem withPermissions_error (h : (do return owner :: (← permissions owner field attr controls) :
    Except CompileError (List Resource)) = .error e) :
    ∃ i, e = .invalidDeclaration ("permissions-" ++ owner.id) (.principalCount i) := by
  simp only [permissions, bind_error_iff, pure_eq_ok, reduceCtorEq, and_false, exists_false,
    or_false] at h
  split at h
  case isTrue => contradiction
  case isFalse =>
    simp only [checkPrincipals, bind_error_iff, reduceCtorEq, and_false, exists_false,
      or_false] at h
    split at h <;> cases h
    case h_1 i _ => exact ⟨i, rfl⟩

end Expansion

namespace Job

def taskKeys (j : Job) : List String :=
  j.tasks.map (·.key)

-- The first task comes after the second one.
def Waits (j : Job) (a b : String) : Prop :=
  ∃ t ∈ j.tasks, t.key = a ∧ ∃ d ∈ t.dependsOns, d.key = b

structure Valid (j : Job) : Prop where
  keyed     : ∀ t ∈ j.tasks, t.key ≠ ""
  distinct  : j.taskKeys.Nodup
  known     : ∀ t ∈ j.tasks, ∀ d ∈ t.dependsOns, d.key ∈ j.taskKeys
  clustered : ∀ t ∈ j.tasks, ∀ key, t.jobClusterKey = some key → ∃ c ∈ j.clusters, c.name = key
  acyclic   : Acyclic j.Waits

-- Valid but for the order of the tasks.
structure WellNamed (j : Job) : Prop where
  keyed     : ∀ t ∈ j.tasks, t.key ≠ ""
  distinct  : j.taskKeys.Nodup
  known     : ∀ t ∈ j.tasks, ∀ d ∈ t.dependsOns, d.key ∈ j.taskKeys
  clustered : ∀ t ∈ j.tasks, ∀ key, t.jobClusterKey = some key → ∃ c ∈ j.clusters, c.name = key

theorem valid_iff : j.Valid ↔ j.WellNamed ∧ Acyclic j.Waits :=
  ⟨fun v => ⟨⟨v.keyed, v.distinct, v.known, v.clustered⟩, v.acyclic⟩,
    fun ⟨w, ha⟩ => ⟨w.keyed, w.distinct, w.known, w.clustered, ha⟩⟩

theorem keyFlaw?_eq_none_iff {seen : List String} {ts : List Task} : keyFlaw? seen ts = none ↔
    (∀ t ∈ ts, t.key ≠ "") ∧ (ts.map (·.key)).Nodup ∧ ∀ t ∈ ts, t.key ∉ seen := by
  induction ts generalizing seen
  case nil => simp [keyFlaw?]
  case cons t ts ih =>
    rw [named_cons, ← ih]
    simp only [keyFlaw?, String.isEmpty_iff, contains_iff_mem]
    by_cases he : t.key = "" <;> by_cases hs : t.key ∈ seen <;> simp [he, hs]

theorem nameFlaw?_eq_none_iff : j.nameFlaw? t = none ↔
    (∀ d ∈ t.dependsOns, d.key ∈ j.taskKeys) ∧
      ∀ key, t.jobClusterKey = some key → ∃ c ∈ j.clusters, c.name = key := by
  simp [nameFlaw?, taskKeys]

theorem flaw?_eq_none_iff : j.flaw? = none ↔ j.WellNamed := by
  simp only [flaw?, Option.or_eq_none_iff, keyFlaw?_eq_none_iff, findSome?_eq_none_iff,
    nameFlaw?_eq_none_iff, not_mem_nil, not_false_eq_true, implies_true, and_true]
  constructor
  case mp =>
    exact fun ⟨⟨hk, hd⟩, hn⟩ => ⟨hk, hd, fun t ht => (hn t ht).left, fun t ht => (hn t ht).right⟩
  case mpr => exact fun w => ⟨⟨w.keyed, w.distinct⟩, fun t ht => ⟨w.known t ht, w.clustered t ht⟩⟩

-- Ids are not looked at.
theorem keyFlaw?_ne_notAddressable {seen : List String} {ts : List Task} :
    keyFlaw? seen ts ≠ some .notAddressable := by
  induction ts generalizing seen
  case nil => nofun
  case cons t ts ih =>
    simp only [keyFlaw?]
    split_ifs
    · nofun
    · nofun
    · exact ih

theorem nameFlaw?_ne_notAddressable : j.nameFlaw? t ≠ some .notAddressable := by
  simp [nameFlaw?, Option.or_eq_some_iff]

theorem flaw?_ne_notAddressable : j.flaw? ≠ some .notAddressable := by
  intro h
  obtain h | ⟨_, h⟩ := Option.or_eq_some_iff.mp h
  · exact keyFlaw?_ne_notAddressable h
  · obtain ⟨_, _, h⟩ := exists_of_findSome?_eq_some h
    exact nameFlaw?_ne_notAddressable h

theorem follows_taskPairs {i k : Nat} : Order.Follows j.taskPairs i k ↔
    ∃ t, j.tasks[i]? = some t ∧
      ∃ d ∈ t.dependsOns, d.key ∈ j.taskKeys ∧ j.taskKeys.idxOf d.key = k := by
  simp only [Order.Follows, taskPairs, taskKeys, mem_flatMap, mem_filterMap, Option.map_eq_some_iff,
    findIdx?_key_eq_some_iff, Prod.mk.injEq, Prod.exists, mk_mem_zipIdx_iff_getElem?]
  constructor
  case mp =>
    rintro ⟨t, i, ht, d, hd, k, hk, rfl, rfl⟩
    exact ⟨t, ht, d, hd, hk⟩
  case mpr =>
    rintro ⟨t, ht, d, hd, hk⟩
    exact ⟨t, i, ht, d, hd, k, hk, rfl, rfl⟩

theorem WellNamed.names (w : j.WellNamed) : Order.Names j.taskKeys j.Waits j.taskPairs where
  nodup   := w.distinct
  follows := by
    intro i k h
    have ⟨t, hi, d, hd, hm, he⟩ := follows_taskPairs.mp h
    exact ⟨t.key, d.key, by simp [taskKeys, hi], he ▸ getElem?_idxOf hm, t, mem_of_getElem? hi, rfl,
      d, hd, rfl⟩
  depends := by
    intro a b ⟨t, ht, ha, d, hd, hb⟩
    have hm := w.known t ht d hd
    have ⟨i, hi⟩ := mem_iff_getElem?.mp ht
    have he : j.taskKeys.idxOf t.key = i := idxOf_key w.distinct hi
    subst ha hb
    exact ⟨mem_map_of_mem ht, hm, follows_taskPairs.mpr ⟨t, he ▸ hi, d, hd, hm, rfl⟩⟩

theorem check_ok_iff : j.check = .ok () ↔ j.Valid := by
  have hl : j.tasks.length = j.taskKeys.length := by simp [taskKeys]
  have hs : j.check = .ok () ↔
      j.flaw? = none ∧ ∃ order, Order.sort j.taskKeys.length j.taskPairs = .ok order := by
    rw [check, hl]
    cases j.flaw? <;> cases Order.sort j.taskKeys.length j.taskPairs <;> simp
  rw [hs, flaw?_eq_none_iff, valid_iff]
  exact and_congr_right fun w => w.names.sort_isOk_iff

-- The order of the tasks is not looked at before everything else is right.
theorem check_error (h : j.check = .error e) :
    (¬j.WellNamed ∧ ∃ flaw, j.flaw? = some flaw ∧ e = .invalidDeclaration j.id flaw) ∨
      (j.WellNamed ∧ ∃ cycle, Encircles j.Waits j.taskKeys cycle ∧
        e = .cyclicDependency (.tasks j.id) cycle) := by
  rw [← flaw?_eq_none_iff]
  simp only [check] at h
  split at h
  case h_1 flaw hf =>
    cases h
    exact .inl ⟨by simp [hf], flaw, hf, rfl⟩
  case h_2 hf =>
    split at h <;> cases h
    case h_2 cycle hs =>
      have hl : j.tasks.length = j.taskKeys.length := by simp [taskKeys]
      have hc : cycle.filterMap (fun i => j.tasks[i]?.map (·.key)) =
          cycle.filterMap (j.taskKeys[·]?) := by simp [taskKeys]
      exact .inr ⟨hf, _, hc ▸ (flaw?_eq_none_iff.mp hf).names.sort_error (hl ▸ hs), rfl⟩

theorem check_cyclic {network : Network} {cycle : List String}
    (h : j.check = .error (.cyclicDependency network cycle)) :
    j.WellNamed ∧ network = .tasks j.id ∧ Encircles j.Waits j.taskKeys cycle := by
  obtain ⟨_, _, _, he⟩ | ⟨w, _, hc, he⟩ := check_error h
  · cases he
  · cases he
    exact ⟨w, rfl, hc⟩

theorem WellNamed.check_cyclic (w : j.WellNamed) (ha : ¬Acyclic j.Waits) :
    ∃ cycle, j.check = .error (.cyclicDependency (.tasks j.id) cycle) := by
  cases hc : j.check
  case ok => exact ha (check_ok_iff.mp hc).acyclic |>.elim
  case error =>
    obtain ⟨hn, _⟩ | ⟨_, cycle, _, rfl⟩ := check_error hc
    · exact hn w |>.elim
    · exact ⟨cycle, rfl⟩

-- Both the tasks and the access controls have to be in order.
theorem expand_isOk_iff :
    (∃ rs, j.expand c = .ok rs) ↔ j.Valid ∧ ∀ a ∈ j.accessControls, a.NamesOne := by
  rw [← check_ok_iff, ← Expansion.withPermissions_isOk_iff]
  constructor
  case mp =>
    intro ⟨rs, h⟩
    have ⟨(), hc, hp⟩ := bind_ok_iff.mp h
    exact ⟨hc, rs, hp⟩
  case mpr => exact fun ⟨hc, rs, hp⟩ => ⟨rs, bind_ok_iff.mpr ⟨(), hc, hp⟩⟩

theorem expand_cyclic_iff {network : Network} {cycle : List String} :
    j.expand c = .error (.cyclicDependency network cycle) ↔
      j.check = .error (.cyclicDependency network cycle) := by
  refine ⟨fun h => ?_, fun h => bind_error_iff.mpr <| .inl h⟩
  obtain h | ⟨_, _, h⟩ := bind_error_iff.mp h
  · exact h
  · obtain ⟨_, he⟩ := Expansion.withPermissions_error h
    cases he

-- A job is expanded exactly if it is valid and each access control is for one principal. If it is
-- well named and not valid, then a circuit of its tasks is told, whatever its access controls.
theorem expand_exact (c : Context) (j : Job) :
    ((∃ rs, j.expand c = .ok rs) ↔ j.Valid ∧ ∀ a ∈ j.accessControls, a.NamesOne) ∧
      ((∃ network cycle, j.expand c = .error (.cyclicDependency network cycle)) ↔
        j.WellNamed ∧ ¬Acyclic j.Waits) ∧
      ∀ network cycle, j.expand c = .error (.cyclicDependency network cycle) →
        network = .tasks j.id ∧ Encircles j.Waits j.taskKeys cycle := by
  simp only [expand_cyclic_iff]
  refine ⟨expand_isOk_iff, ⟨?_, ?_⟩, fun _ _ h => (check_cyclic h).right⟩
  · intro ⟨_, _, h⟩
    obtain ⟨w, _, hc⟩ := check_cyclic h
    exact ⟨w, hc.not_acyclic⟩
  · intro ⟨w, ha⟩
    exact ⟨_, w.check_cyclic ha⟩

end Job

def namedTask (key : String) (dependencies : List String) : Task :=
  { (default : Task) with key, dependsOns := dependencies.map fun key => ⟨key⟩ }

-- One task waits for another one twice.
def chainedTasks : Job :=
  { (default : Job) with
    name := "nightly", tasks := [namedTask "train" ["load", "load"], namedTask "load" []] }

-- The last two tasks wait for each other, and one of them for the first one.
def mutualTasks : Job :=
  { (default : Job) with
    name  := "nightly"
    tasks := [namedTask "load" [], namedTask "train" ["score", "load", "score"],
      namedTask "score" ["train"]] }

theorem expand_exact_mutualTasks : chainedTasks.Valid ∧
    mutualTasks.expand default =
      .error (.cyclicDependency (.tasks "job-nightly") ["train", "score"]) ∧
    mutualTasks.WellNamed ∧ ¬Acyclic mutualTasks.Waits ∧
    Encircles mutualTasks.Waits mutualTasks.taskKeys ["train", "score"] := by
  have hc : chainedTasks.expand default = .ok _ := rfl
  have hs : [1, 2].mergeSort = [1, 2] := mergeSort_of_pairwise (by decide)
  have hm : mutualTasks.expand default = .error (.cyclicDependency (.tasks "job-nightly")
      ([1, 2].mergeSort.filterMap fun i => mutualTasks.tasks[i]?.map (·.key))) := rfl
  rw [hs] at hm
  obtain ⟨hok, _, _⟩ := Job.expand_exact default chainedTasks
  obtain ⟨_, hcyclic, htold⟩ := Job.expand_exact default mutualTasks
  obtain ⟨hw, ha⟩ := hcyclic.mp ⟨_, _, hm⟩
  exact ⟨(hok.mp ⟨_, hc⟩).left, hm, hw, ha, (htold _ _ hm).right⟩

end Lakehouse
