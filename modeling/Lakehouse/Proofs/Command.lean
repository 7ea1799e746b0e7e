import Lakehouse.Command.Run
import Lakehouse.Proofs.Digest
import Lakehouse.Proofs.FileSystem

namespace Lakehouse

open Attempt

variable {α β : Type} {fs : FileSystem}

-- The stack file of a directory.
def Stack.home (directory : String) : String :=
  Path.join directory Stack.fileName

-- The file that a document is put into.
def EmitOptions.target (o : EmitOptions) : String :=
  Path.join o.directory o.backend.fileName

theorem Stack.load_ok_iff {content : String} {g : Graph} : Stack.load content = .ok g ↔
    ∃ s, Stack.read? content = some s ∧ s.violations = [] ∧ s.compile = .ok g := by
  rw [Stack.load]
  cases Stack.read? content
  case none => simp
  case some s =>
    by_cases hv : s.violations = []
    case pos => simp [hv, mapError_ok_iff]
    case neg => simp [hv]

namespace FileSystem

-- The graph of a stack file.
def load (fs : FileSystem) (file : String) : Except Failure Graph :=
  match fs.read file with
  | .error e => .error (.unreadable file e)
  | .ok bytes =>
    match String.fromUTF8? bytes with
    | some content => Stack.load content
    | none => .error (.unreadable file .notText)

-- The document of a stack file.
def document (fs : FileSystem) (o : EmitOptions) : Except Failure Document := do
  let g ← fs.load o.file
  (g.emit o.backend).mapError .emit

-- The stack file is read, and every stage from there to the document succeeds.
inductive Documents (fs : FileSystem) (o : EmitOptions) (d : Document) : Prop
  | intro {bytes : ByteArray} {content : String} {s : Stack} {g : Graph}
    (read : fs.read o.file = .ok bytes) (text : String.fromUTF8? bytes = some content)
    (parse : Stack.read? content = some s) (valid : s.violations = [])
    (compile : s.compile = .ok g) (emit : g.emit o.backend = .ok d)

theorem load_ok_iff {file : String} {g : Graph} : fs.load file = .ok g ↔
    ∃ bytes, fs.read file = .ok bytes ∧ ∃ content, String.fromUTF8? bytes = some content ∧
      Stack.load content = .ok g := by
  rw [load]
  cases fs.read file
  case error => simp
  case ok bytes =>
    cases ht : String.fromUTF8? bytes <;> simp [ht]

theorem document_ok_iff {o : EmitOptions} {d : Document} :
    fs.document o = .ok d ↔ fs.Documents o d := by
  simp only [document, bind_ok_iff, load_ok_iff, Stack.load_ok_iff, mapError_ok_iff]
  constructor
  case mp =>
    intro ⟨_, ⟨_, hr, _, ht, _, hp, hv, hc⟩, he⟩
    exact .intro hr ht hp hv hc he
  case mpr =>
    intro ⟨hr, ht, hp, hv, hc, he⟩
    exact ⟨_, ⟨_, hr, _, ht, _, hp, hv, hc⟩, he⟩

-- No file with the fingerprint of the document is in its place.
def Differs (fs : FileSystem) (o : EmitOptions) (d : Document) : Prop :=
  ∀ bytes, fs.read o.target = .ok bytes → Digest.ofBytes bytes ≠ Digest.ofText d.render

end FileSystem

namespace Command

-- What a computation comes to on a file system, and what it leaves.
def on (x : Run (StateM FileSystem) α) (fs : FileSystem) : Except Failure α × FileSystem :=
  x.run.run fs

-- What a command comes to on a file system, and what it leaves.
def exec (c : Command) (fs : FileSystem) : Except Failure String × FileSystem :=
  on (c.run FileSystem.access) fs

section

variable {x : Run (StateM FileSystem) α} {f : α → Run (StateM FileSystem) β}

theorem on_bind : on (x >>= f) fs = match on x fs with
    | (.ok a, fs)    => on (f a) fs
    | (.error e, fs) => (.error e, fs) := by
  have h : on (x >>= f) fs =
      (ExceptT.bindCont f (on x fs).1 : StateM FileSystem (Except Failure β)) (on x fs).2 := rfl
  rw [h]
  split
  case h_1 he => rw [he]; rfl
  case h_2 he => rw [he]; rfl

@[simp]
theorem on_pure {a : α} : on (pure a) fs = (.ok a, fs) :=
  rfl

@[simp]
theorem on_throw {e : Failure} : on (throw e : Run (StateM FileSystem) α) fs = (.error e, fs) :=
  rfl

theorem on_attempt {x : StateM FileSystem (Except FileError α)} {failure : FileError → Failure} :
    on (attempt x failure) fs = ((x.run fs).1.mapError failure, (x.run fs).2) := by
  have hl : on (ExceptT.lift x) fs = (.ok (x.run fs).1, (x.run fs).2) := rfl
  rw [attempt, on_bind, hl]
  cases (x.run fs).1 <;> rfl

end

section

variable {path : String} {content : ByteArray} {failure : FileError → Failure}

theorem on_exists? : on (FileSystem.access.exists? path : Run (StateM FileSystem) Bool) fs =
    (.ok (fs.exists? path), fs) :=
  rfl

theorem on_read : on (attempt (FileSystem.access.read path) failure) fs =
    ((fs.read path).mapError failure, fs) :=
  on_attempt

theorem on_write : on (attempt (FileSystem.access.write path content) failure) fs =
    match fs.write path content with
    | .ok fs => (.ok (), fs)
    | .error e => (.error (failure e), fs) := by
  have hw : (FileSystem.access.write path content).run fs = match fs.write path content with
      | .ok fs => (.ok (), fs)
      | .error e => (.error e, fs) := rfl
  rw [on_attempt, hw]
  cases fs.write path content <;> rfl

theorem on_makeDirectories : on (attempt (FileSystem.access.makeDirectories path) failure) fs =
    ((fs.makeAll path).1.mapError failure, (fs.makeAll path).2) :=
  on_attempt

end

theorem on_loadGraph {file : String} :
    on (loadGraph FileSystem.access file) fs = (fs.load file, fs) := by
  simp only [loadGraph, on_bind, on_read, FileSystem.load]
  cases fs.read file
  case error => rfl
  case ok bytes =>
    simp only [Except.mapError]
    cases String.fromUTF8? bytes <;> rfl

-- A file that is there cannot be read, or it has the fingerprint, or else nothing that can be read
-- has it.
theorem isUnchanged_cases (fs : FileSystem) (target fingerprint : String) :
    (∃ e, fs.exists? target ∧ fs.read target = .error e ∧
      on (isUnchanged FileSystem.access target fingerprint) fs =
        (.error (.incomparable target e), fs)) ∨
    (∃ bytes, fs.read target = .ok bytes ∧ Digest.ofBytes bytes = fingerprint ∧
      on (isUnchanged FileSystem.access target fingerprint) fs = (.ok true, fs)) ∨
    (∀ bytes, fs.read target = .ok bytes → Digest.ofBytes bytes ≠ fingerprint) ∧
      on (isUnchanged FileSystem.access target fingerprint) fs = (.ok false, fs) := by
  simp only [isUnchanged, on_bind, on_exists?, Digest.ofFile_eq]
  by_cases hx : fs.exists? target
  case pos =>
    simp only [hx, if_true, on_bind, on_read]
    cases fs.read target
    case error e  => exact .inl ⟨e, trivial, rfl, rfl⟩
    case ok bytes =>
      by_cases hs : Digest.ofBytes bytes = fingerprint
      case pos => exact .inr <| .inl ⟨bytes, rfl, hs, by simp [Except.mapError, hs]⟩
      case neg => exact .inr <| .inr <| by simp [Except.mapError, hs]
  case neg =>
    refine .inr <| .inr ⟨fun bytes h => hx (FileSystem.exists?_of_read h) |>.elim, ?_⟩
    simp [hx]

-- What can come of putting a document into its place.
inductive Placing (fs : FileSystem) (o : EmitOptions) (d : Document) :
    Except Failure String → FileSystem → Prop
  | unread {e : FileError} (there : fs.exists? o.target) (read : fs.read o.target = .error e) :
      Placing fs o d (.error (.incomparable o.target e)) fs
  | same {bytes : ByteArray} {text : String} (read : fs.read o.target = .ok bytes)
      (agrees : Digest.ofBytes bytes = Digest.ofText d.render) : Placing fs o d (.ok text) fs
  | stale (differs : fs.Differs o d) (checks : o.check) :
      Placing fs o d (.error (.outOfDate o.target)) fs
  | blocked {e : FileError} {mid : FileSystem} (differs : fs.Differs o d) (writes : ¬o.check)
      (make : fs.makeAll o.directory = (.error e, mid)) :
      Placing fs o d (.error (.noDirectory o.directory e)) mid
  | refused {e : FileError} {mid : FileSystem} (differs : fs.Differs o d) (writes : ¬o.check)
      (make : fs.makeAll o.directory = (.ok (), mid))
      (write : mid.write o.target d.render.toUTF8 = .error e) :
      Placing fs o d (.error (.unwritable o.target e)) mid
  | written {text : String} {mid fs' : FileSystem} (differs : fs.Differs o d) (writes : ¬o.check)
      (make : fs.makeAll o.directory = (.ok (), mid))
      (write : mid.write o.target d.render.toUTF8 = .ok fs') : Placing fs o d (.ok text) fs'

-- What can come of a command.
inductive Step (fs : FileSystem) : Command → Except Failure String → FileSystem → Prop
  | validate {file : String} :
      Step fs (.validate file) ((fs.load file).map fun g => unlines [g.summary]) fs
  | graph {file : String} {json : Bool} : Step fs (.graph file json) ((fs.load file).map fun g =>
      if json then Json.pretty g.encode ++ "\n" else unlines g.listing) fs
  | found {d : String} (there : fs.exists? (Stack.home d)) :
      Step fs (.init d) (.error (.alreadyThere (Stack.home d))) fs
  | refused {d : String} {e : FileError} (absent : ¬fs.exists? (Stack.home d))
      (write : fs.write (Stack.home d) Stack.template.toUTF8 = .error e) :
      Step fs (.init d) (.error (.unwritable (Stack.home d) e)) fs
  | begun {d text : String} {fs' : FileSystem} (absent : ¬fs.exists? (Stack.home d))
      (write : fs.write (Stack.home d) Stack.template.toUTF8 = .ok fs') :
      Step fs (.init d) (.ok text) fs'
  | failed {o : EmitOptions} {e : Failure} (document : fs.document o = .error e) :
      Step fs (.emit o) (.error e) fs
  | shown {o : EmitOptions} {d : Document} (document : fs.document o = .ok d) (shows : o.toOutput) :
      Step fs (.emit o) (.ok d.render) fs
  | placing {o : EmitOptions} {d : Document} {r : Except Failure String} {fs' : FileSystem}
      (document : fs.document o = .ok d) (places : ¬o.toOutput) (p : Placing fs o d r fs') :
      Step fs (.emit o) r fs'

theorem fileName_of_emit {g : Graph} {b : Backend} {d : Document} (h : g.emit b = .ok d) :
    d.fileName = b.fileName := by
  cases b <;>
    have ⟨_, _, h⟩ := bind_ok_iff.mp h <;>
    cases h <;>
    rfl

theorem place_placing {g : Graph} {o : EmitOptions} {d : Document}
    (hd : d.fileName = o.backend.fileName) :
    Placing fs o d (on (place FileSystem.access o g d) fs).1
      (on (place FileSystem.access o g d) fs).2 := by
  have ht : Path.join o.directory d.fileName = o.target := by rw [hd, EmitOptions.target]
  simp only [place, ht, on_bind]
  obtain ⟨e, hx, hr, hc⟩ | ⟨bytes, hr, hs, hc⟩ | ⟨hn, hc⟩ :=
    isUnchanged_cases fs o.target (Digest.ofText d.render)
  · rw [hc]
    exact .unread hx hr
  · rw [hc]
    cases o.check <;> exact .same hr hs
  · rw [hc]
    by_cases hk : o.check
    case pos =>
      simp only [hk, if_true]
      exact .stale hn hk
    case neg =>
      simp only [hk, Bool.false_eq_true, if_false, on_bind, on_makeDirectories, on_write]
      rcases hm : fs.makeAll o.directory with ⟨_ | ⟨⟩, mid⟩
      case error e => exact .blocked hn hk hm
      case ok =>
        simp only [Except.mapError]
        cases hw : mid.write o.target d.render.toUTF8
        case error e => exact .refused hn hk hm hw
        case ok fs' => exact .written hn hk hm hw

theorem exec_validate {file : String} : exec (.validate file) fs =
    ((fs.load file).map fun g => unlines [g.summary], fs) := by
  simp only [exec, run, runValidate, on_bind, on_loadGraph]
  cases fs.load file <;> rfl

theorem exec_graph {file : String} {json : Bool} : exec (.graph file json) fs =
    ((fs.load file).map fun g =>
      if json then Json.pretty g.encode ++ "\n" else unlines g.listing, fs) := by
  simp only [exec, run, runGraph, on_bind, on_loadGraph]
  cases fs.load file <;> rfl

theorem exec_step (c : Command) (fs : FileSystem) : Step fs c (c.exec fs).1 (c.exec fs).2 := by
  cases c
  case validate file =>
    rw [exec_validate]
    exact .validate
  case graph file json =>
    rw [exec_graph]
    exact .graph
  case init d =>
    simp only [exec, run, runInit, on_bind, on_exists?]
    by_cases hx : fs.exists? (Stack.home d)
    case pos =>
      rw [Stack.home] at hx
      simp only [hx, if_true, on_bind, on_throw]
      exact .found hx
    case neg =>
      cases hw : fs.write (Stack.home d) Stack.template.toUTF8
      all_goals
        rw [Stack.home] at hx hw
        simp only [hx, Bool.false_eq_true, if_false, on_bind, on_write, hw]
      case error e => exact .refused hx hw
      case ok fs' => exact .begun hx hw
  case emit o =>
    cases hl : fs.load o.file
    all_goals simp only [exec, run, runEmit, on_bind, on_loadGraph, hl]
    case error e => exact .failed <| by rw [FileSystem.document, hl, error_bind]
    case ok g =>
      have hg : fs.document o = (g.emit o.backend).mapError .emit := by
        rw [FileSystem.document, hl, ok_bind]
      cases he : g.emit o.backend
      all_goals rw [he] at hg
      case error e => exact .failed hg
      case ok d =>
        by_cases ht : o.toOutput
        case pos =>
          simp only [ht, if_true]
          exact .shown hg ht
        case neg =>
          simp only [ht, Bool.false_eq_true, if_false]
          exact .placing hg ht (place_placing (fileName_of_emit he))

end Command

end Lakehouse
