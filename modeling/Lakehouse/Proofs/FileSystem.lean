import Lakehouse.FileSystem
import Lakehouse.Proofs.Attempt
/-!
File systems, by what is at each location. To make directories fills only what is free, and to write a
file changes one location that is no directory. Hence every path that led somewhere leads there still,
and what could be read can be read, but for the file that was written.
-/
namespace Lakehouse

open Attempt

variable {fs fs' mid : FileSystem} {l k : Location} {e : Entry} {path : String} {content : ByteArray}
variable {name : String} {names : List String} {made : Bool}

-- Where a path leads, if it leads anywhere.
def Location.ofPath (path : String) : Location :=
  (Path.names path).foldl Location.enter (.ofStart path)

namespace FileSystem

-- Nothing is lost, and there are directories only where nothing was.
def Grows (fs fs' : FileSystem) : Prop :=
  ∀ l, fs'.entryAt? l = fs.entryAt? l ∨
    fs.entryAt? l = none ∧ fs'.entryAt? l = some .directory

-- There is a file at a location that was no directory, and everything else is as it was.
structure Puts (fs : FileSystem) (l : Location) (content : ByteArray) (fs' : FileSystem) : Prop where
  free : fs.entryAt? l ≠ some .directory
  file : fs'.entryAt? l = some (.file content)
  rest : ∀ k ≠ l, fs'.entryAt? k = fs.entryAt? k

theorem entryAt?_put (h : ¬l.isFixed) :
    (fs.put l e).entryAt? k = if k = l then some e else fs.entryAt? k := by
  simp only [entryAt?, put, List.lookup_cons]
  by_cases hk : k = l
  case pos => simp [hk, h]
  case neg => simp only [beq_false_of_ne hk, if_neg hk]

theorem not_isFixed (h : fs.entryAt? l ≠ some .directory) : ¬l.isFixed :=
  fun hf => h <| by simp [entryAt?, hf]

namespace Grows

theorem refl (fs : FileSystem) : fs.Grows fs :=
  fun _ => .inl rfl

theorem trans (g : fs.Grows mid) (g' : mid.Grows fs') : fs.Grows fs' := by
  intro l
  obtain h | ⟨h, hm⟩ := g l <;> obtain h' | ⟨h', hf⟩ := g' l
  · exact .inl <| h'.trans h
  · exact .inr ⟨h ▸ h', hf⟩
  · exact .inr ⟨h, h'.trans hm⟩
  · simp [hm] at h'

theorem put (h : fs.entryAt? l = none) : fs.Grows (fs.put l .directory) := by
  intro k
  have hd : fs.entryAt? l ≠ some .directory := by simp [h]
  have hf := not_isFixed hd
  rw [entryAt?_put hf]
  by_cases hk : k = l
  case pos => exact .inr <| by simp [hk, h]
  case neg => exact .inl <| by simp [hk]

theorem entryAt? (g : fs.Grows fs') (h : fs.entryAt? l = some e) : fs'.entryAt? l = some e := by
  obtain hl | ⟨hl, _⟩ := g l
  · exact hl.trans h
  · simp [hl] at h

theorem content? (g : fs.Grows fs') (l : Location) : fs'.content? l = fs.content? l := by
  obtain h | ⟨h, h'⟩ := g l
  · simp only [FileSystem.content?, h]
  · simp only [FileSystem.content?, h, h']

end Grows

theorem makeAlong_grows : fs.Grows (fs.makeAlong l made names).2 := by
  induction names generalizing fs l made
  case nil => exact .refl fs
  case cons name rest ih =>
    simp only [makeAlong]
    split
    case isTrue => exact .refl fs
    case isFalse =>
      split
      case h_1 => exact ih
      case h_2 => exact .refl fs
      case h_3 h => exact (Grows.put h).trans ih

theorem makeAll_grows {result : Except FileError Unit} (h : fs.makeAll path = (result, mid)) :
    fs.Grows mid := by
  have hg : fs.Grows (fs.makeAll path).2 := makeAlong_grows
  rwa [h] at hg

theorem step_ok_iff : fs.step l name = .ok k ↔
    fs.entryAt? l = some .directory ∧ l.enter name = k := by
  simp only [step]
  split <;> simp_all

theorem foldlM_step (h : names.foldlM fs.step l = .ok k) : names.foldl Location.enter l = k := by
  induction names generalizing l
  case nil => exact Except.ok.inj h
  case cons name names ih =>
    have ⟨next, hs, hn⟩ := bind_ok_iff.mp h
    rw [List.foldl_cons, (step_ok_iff.mp hs).right, ih hn]

theorem foldlM_step_mono
    (hd : ∀ l, fs.entryAt? l = some .directory → fs'.entryAt? l = some .directory)
    (h : names.foldlM fs.step l = .ok k) : names.foldlM fs'.step l = .ok k := by
  induction names generalizing l
  case nil => exact h
  case cons name names ih =>
    have ⟨next, hs, hn⟩ := bind_ok_iff.mp h
    have ⟨hl, he⟩ := step_ok_iff.mp hs
    exact bind_ok_iff.mpr ⟨next, step_ok_iff.mpr ⟨hd l hl, he⟩, ih hn⟩

theorem locate_ok_iff : fs.locate path = .ok l ↔
    ¬path.isEmpty ∧ (Path.names path).foldlM fs.step (.ofStart path) = .ok l := by
  rw [locate]
  split <;> simp_all

-- A path leads where its names lead.
theorem locate_ok (h : fs.locate path = .ok l) : l = .ofPath path :=
  (foldlM_step (locate_ok_iff.mp h).right).symm

theorem locate_mono (hd : ∀ l, fs.entryAt? l = some .directory → fs'.entryAt? l = some .directory)
    (h : fs.locate path = .ok l) : fs'.locate path = .ok l :=
  locate_ok_iff.mpr <| (locate_ok_iff.mp h).imp_right (foldlM_step_mono hd)

theorem read_ok_iff : fs.read path = .ok content ↔ fs.locate path = .ok (.ofPath path) ∧
    fs.entryAt? (.ofPath path) = some (.file content) ∧ ¬Path.namesDirectory path := by
  simp only [read, find, bind_ok_iff]
  constructor
  case mp =>
    rintro ⟨e, ⟨l, hl, hf⟩, he⟩
    cases locate_ok hl
    split at hf
    case h_1 hc =>
      split at hf <;> cases hf
      cases he
      exact ⟨hl, hc, ‹_›⟩
    case h_2 =>
      cases hf
      contradiction
    case h_3 => contradiction
  case mpr =>
    intro ⟨hl, hf, hn⟩
    exact ⟨.file content, ⟨_, hl, by simp [hf, hn]⟩, rfl⟩

theorem exists?_of_read (h : fs.read path = .ok content) : fs.exists? path := by
  have ⟨e, hf, _⟩ := bind_ok_iff.mp h
  simp [exists?, hf]

theorem write_puts (h : fs.write path content = .ok fs') : fs.locate path = .ok (.ofPath path) ∧
    ¬Path.namesDirectory path ∧ fs.Puts (.ofPath path) content fs' := by
  have ⟨l, hl, hw⟩ := bind_ok_iff.mp h
  cases locate_ok hl
  have hp : fs.entryAt? (.ofPath path) ≠ some .directory ∧ ¬Path.namesDirectory path ∧
      fs' = fs.put (.ofPath path) (.file content) := by
    split at hw
    case h_1 => contradiction
    all_goals
      split at hw <;> cases hw
      simp_all
  have ⟨hd, hn, he⟩ := hp
  have hf := not_isFixed hd
  subst he
  exact ⟨hl, hn, hd, by simp [entryAt?_put hf], fun k hk => by simp [entryAt?_put hf, hk]⟩

namespace Puts

-- Only the one file differs.
theorem content? (p : fs.Puts l content fs') :
    fs'.content? k = if k = l then some content else fs.content? k := by
  by_cases hk : k = l
  case pos => simp [FileSystem.content?, hk, p.file]
  case neg => simp [FileSystem.content?, hk, p.rest k hk]

theorem directory (p : fs.Puts l content fs') (h : fs.entryAt? k = some .directory) :
    fs'.entryAt? k = some .directory := by
  have hk : k ≠ l := fun he => p.free (he ▸ h)
  exact (p.rest k hk).trans h

end Puts

-- What was written can be read.
theorem write_read (h : fs.write path content = .ok fs') : fs'.read path = .ok content := by
  have ⟨hl, hn, hp⟩ := write_puts h
  exact read_ok_iff.mpr ⟨locate_mono (fun _ => hp.directory) hl, hp.file, hn⟩

theorem read_of_grows (g : fs.Grows fs') (h : fs.read path = .ok content) :
    fs'.read path = .ok content := by
  have ⟨hl, hf, hn⟩ := read_ok_iff.mp h
  exact read_ok_iff.mpr ⟨locate_mono (fun _ => g.entryAt?) hl, g.entryAt? hf, hn⟩

-- A file at another location is read as before.
theorem read_of_puts {c : ByteArray} (p : fs.Puts l content fs') (h : fs.read path = .ok c)
    (hne : .ofPath path ≠ l) : fs'.read path = .ok c := by
  have ⟨hl, hf, hn⟩ := read_ok_iff.mp h
  exact read_ok_iff.mpr ⟨locate_mono (fun _ => p.directory) hl, (p.rest _ hne).trans hf, hn⟩

end FileSystem

end Lakehouse
