import Lakehouse.Proofs.Command
/-!
Commands that follow each other on one file system. Each one has at most one place that it writes to,
and it writes there as its last step, when nothing can fail any more. So a document that was emitted
stays up to date until there is a command with its place, or that of the stack file, for its own.
-/
namespace Lakehouse

variable {fs fs' mid : FileSystem} {c : Command} {cs : List Command} {o : EmitOptions} {d : Document}
variable {l : Location} {content : ByteArray} {r : Except Failure String} {text path : String}

namespace FileSystem

-- What is in the place of a document does not collide with it.
def Distinguishes (fs : FileSystem) (o : EmitOptions) (d : Document) : Prop :=
  ∀ bytes, fs.read o.target = .ok bytes → Digest.NoCollision [bytes] [d.render.toUTF8]

-- What is in the place of a document has its fingerprint.
def Agrees (fs : FileSystem) (o : EmitOptions) (d : Document) : Prop :=
  ∃ bytes, fs.read o.target = .ok bytes ∧ Digest.ofBytes bytes = Digest.ofText d.render

theorem Distinguishes.eq {bytes : ByteArray} (hn : fs.Distinguishes o d)
    (hr : fs.read o.target = .ok bytes) (h : Digest.ofBytes bytes = Digest.ofText d.render) :
    bytes = d.render.toUTF8 :=
  hn bytes hr (bytes, d.render.toUTF8) (List.mem_singleton_self _) (Digest.ofBytes_inj h)

theorem Documents.unique {d' : Document} (h : fs.Documents o d) (h' : fs.Documents o d') : d = d' :=
  Except.ok.inj <| (document_ok_iff.mpr h).symm.trans (document_ok_iff.mpr h')

-- Only the stack file counts.
theorem Documents.of_read {o' : EmitOptions} (h : fs.Documents o d) (hb : o'.backend = o.backend)
    (hr : ∀ bytes, fs.read o.file = .ok bytes → fs'.read o'.file = .ok bytes) :
    fs'.Documents o' d := by
  have ⟨read, text, parse, valid, compile, emit⟩ := h
  exact ⟨hr _ read, text, parse, valid, compile, hb ▸ emit⟩

end FileSystem

namespace Command

-- The one place that a command may write to.
def place? : Command → Option Location
  | init directory => some (.ofPath (Stack.home directory))
  | emit o => if o.toOutput || o.check then none else some (.ofPath o.target)
  | validate _ | graph _ _ => none

-- What a command writes, and where, if it succeeds.
inductive Writes (fs : FileSystem) : Command → Location → ByteArray → Prop
  | init {directory : String} (absent : ¬fs.exists? (Stack.home directory)) :
      Writes fs (.init directory) (.ofPath (Stack.home directory)) Stack.template.toUTF8
  | emit {o : EmitOptions} {d : Document} (documents : fs.Documents o d) (places : ¬o.toOutput)
      (writes : ¬o.check) : Writes fs (.emit o) (.ofPath o.target) d.render.toUTF8

theorem Writes.place? (w : Writes fs c l content) : c.place? = some l := by
  cases w
  case init         => rfl
  case emit _ ho hc => simp [Command.place?, ho, hc]

-- Directories are all that may be new, or the command succeeds and there is one file more to it.
inductive Effect (fs : FileSystem) (c : Command) : Except Failure String → FileSystem → Prop
  | grows {r : Except Failure String} {fs' : FileSystem} (g : fs.Grows fs') : Effect fs c r fs'
  | puts {text : String} {l : Location} {content : ByteArray} {mid fs' : FileSystem}
      (g : fs.Grows mid) (w : Writes fs c l content) (p : mid.Puts l content fs') :
      Effect fs c (.ok text) fs'

theorem Step.effect (s : Step fs c r fs') : Effect fs c r fs' := by
  cases s
  case begun absent write =>
    have ⟨_, _, hp⟩ := FileSystem.write_puts write
    exact .puts (.refl fs) (.init absent) hp
  case placing o d document places p =>
    cases p
    case blocked make   => exact .grows (FileSystem.makeAll_grows make)
    case refused make _ => exact .grows (FileSystem.makeAll_grows make)
    case written _ writes make write =>
      have hd := FileSystem.document_ok_iff.mp document
      have ⟨_, _, hp⟩ := FileSystem.write_puts write
      exact .puts (FileSystem.makeAll_grows make) (.emit hd places writes) hp
    all_goals exact .grows (.refl fs)
  all_goals exact .grows (.refl fs)

namespace Effect

theorem content? (e : Effect fs c r fs') : (∀ k, fs'.content? k = fs.content? k) ∨
    (∃ text, r = .ok text) ∧ ∃ l content, Writes fs c l content ∧
      ∀ k, fs'.content? k = if k = l then some content else fs.content? k := by
  cases e
  case grows g => exact .inl g.content?
  case puts g w p => exact .inr ⟨⟨_, rfl⟩, _, _, w, fun k => by rw [p.content?, g.content?]⟩

-- A file that can be read can be read again, but for the one in the place of the command.
theorem read (e : Effect fs c r fs') (hp : c.place? ≠ some (.ofPath path))
    (h : fs.read path = .ok content) : fs'.read path = .ok content := by
  cases e
  case grows g => exact FileSystem.read_of_grows g h
  case puts g w p =>
    exact FileSystem.read_of_puts p (FileSystem.read_of_grows g h) fun he => hp <| he ▸ w.place?

end Effect

theorem Placing.eq_of_check (p : Placing fs o d r fs') (h : o.check) : fs' = fs := by
  cases p
  case blocked writes _   => contradiction
  case refused writes _ _ => contradiction
  case written writes _ _ => contradiction
  all_goals rfl

-- A command that has nowhere to write leaves everything as it is, directories included.
theorem Step.eq_of_place? (s : Step fs c r fs') (h : c.place? = none) : fs' = fs := by
  cases s
  case placing o d document places p => exact p.eq_of_check <| by simpa [place?, places] using h
  all_goals first | rfl | exact nomatch h

theorem Placing.agrees (p : Placing fs o d (.ok text) fs') : fs'.Agrees o d := by
  cases p
  case same bytes read agrees => exact ⟨bytes, read, agrees⟩
  case written write          => exact ⟨_, FileSystem.write_read write, rfl⟩

theorem Placing.read (p : Placing fs o d (.ok text) fs') (h : fs.Distinguishes o d) :
    fs'.read o.target = .ok d.render.toUTF8 := by
  cases p
  case same bytes read agrees => exact h.eq read agrees ▸ read
  case written write          => exact FileSystem.write_read write

theorem Placing.same_of_agrees (p : Placing fs o d r fs') (h : fs.Agrees o d) :
    fs' = fs ∧ ∃ text, r = .ok text := by
  have ⟨bytes, hr, ha⟩ := h
  have hd : ¬fs.Differs o d := fun hd => hd bytes hr ha
  cases p
  case unread e read => simp [hr] at read
  case same => exact ⟨rfl, _, rfl⟩
  all_goals contradiction

-- Where the document agrees with what is in its place, nothing is written.
theorem Step.same_of_agrees (s : Step fs (.emit o) r fs') (hd : fs.Documents o d)
    (ho : ¬o.toOutput) (h : fs.Agrees o d) : fs' = fs ∧ ∃ text, r = .ok text := by
  have hd := FileSystem.document_ok_iff.mpr hd
  cases s
  case failed document => simp [hd] at document
  case shown => contradiction
  case placing d' document _ p =>
    cases Except.ok.inj <| document.symm.trans hd
    exact p.same_of_agrees h

theorem Step.shown_of_toOutput (s : Step fs (.emit o) r fs') (hd : fs.Documents o d)
    (ho : o.toOutput) : r = .ok d.render := by
  have hd := FileSystem.document_ok_iff.mpr hd
  cases s
  case failed document => simp [hd] at document
  case shown document _ => rw [Except.ok.inj <| document.symm.trans hd]
  case placing          => contradiction

-- To begin a project is to make its stack file, if there is none.
structure Begins (directory : String) (fs : FileSystem) (r : Except Failure String)
    (fs' : FileSystem) : Prop where
  found : fs.exists? (Stack.home directory) →
    r = .error (.alreadyThere (Stack.home directory)) ∧ fs' = fs
  failed : ∀ e, r = .error e → fs' = fs
  begun : ∀ text, r = .ok text → fs'.read (Stack.home directory) = .ok Stack.template.toUTF8

-- To emit is to bring the document of a stack file into its place.
structure Emits (o : EmitOptions) (fs : FileSystem) (r : Except Failure String)
    (fs' : FileSystem) : Prop where
  -- Nothing is touched before there is a document.
  staged : fs' ≠ fs → ∃ d, fs.Documents o d
  placed : ¬o.toOutput → ¬o.check → ∀ text, r = .ok text → ∃ d, fs.Documents o d ∧
    fs'.Agrees o d ∧ (fs.Distinguishes o d → fs'.read o.target = .ok d.render.toUTF8)

theorem Step.begins {directory : String} (s : Step fs (.init directory) r fs') :
    Begins directory fs r fs' := by
  cases s
  case found there => exact ⟨fun _ => ⟨rfl, rfl⟩, fun _ _ => rfl, nofun⟩
  case refused absent _ => exact ⟨fun h => absurd h absent, fun _ _ => rfl, nofun⟩
  case begun absent write =>
    exact ⟨fun h => absurd h absent, nofun, fun _ _ => FileSystem.write_read write⟩

theorem Step.emits (s : Step fs (.emit o) r fs') : Emits o fs r fs' := by
  cases s
  case failed => exact ⟨fun h => absurd rfl h, nofun⟩
  case shown => exact ⟨fun h => absurd rfl h, fun h => absurd ‹_› h⟩
  case placing d document places p =>
    have hd := FileSystem.document_ok_iff.mp document
    refine ⟨fun _ => ⟨d, hd⟩, fun _ _ text hr => ?_⟩
    subst hr
    exact ⟨d, hd, p.agrees, p.read⟩

-- What a command may do to the files that it finds.
structure Careful (c : Command) (fs : FileSystem) : Prop where
  -- Nowhere to write: that is `validate`, `graph`, and an `emit` that prints or checks.
  looks : c.place? = none → (c.exec fs).2 = fs
  only : ∀ l, c.place? ≠ some l → (c.exec fs).2.content? l = fs.content? l
  fails : ∀ e, (c.exec fs).1 = .error e → ∀ l, (c.exec fs).2.content? l = fs.content? l
  begins : ∀ directory, c = .init directory → Begins directory fs (c.exec fs).1 (c.exec fs).2
  emits : ∀ o, c = .emit o → Emits o fs (c.exec fs).1 (c.exec fs).2

theorem exec_careful (c : Command) (fs : FileSystem) : Careful c fs := by
  have s := exec_step c fs
  refine ⟨s.eq_of_place?, fun l hl => ?only, fun e he l => ?fails, ?begins, ?emits⟩
  case only =>
    obtain hk | ⟨_, k, content, hw, hk⟩ := s.effect.content?
    · exact hk l
    · rw [hk, if_neg fun h : l = k => hl <| h ▸ hw.place?]
  case fails =>
    obtain hk | ⟨⟨_, ht⟩, _⟩ := s.effect.content?
    · exact hk l
    · exact nomatch he.symm.trans ht
  case begins =>
    rintro directory rfl
    exact s.begins
  case emits =>
    rintro o rfl
    exact s.emits

-- What commands leave, one after the other.
def after (cs : List Command) (fs : FileSystem) : FileSystem :=
  cs.foldl (fun fs c => (c.exec fs).2) fs

theorem after_append {cs' : List Command} : after (cs ++ cs') fs = after cs' (after cs fs) :=
  List.foldl_append

theorem after_content? (h : ∀ c ∈ cs, c.place? ≠ some l) :
    (after cs fs).content? l = fs.content? l := by
  induction cs generalizing fs
  case nil => rfl
  case cons c cs ih =>
    have ⟨hc, hcs⟩ := List.forall_mem_cons.mp h
    exact (ih hcs).trans <| (exec_careful c fs).only l hc

theorem after_read (hp : ∀ c ∈ cs, c.place? ≠ some (.ofPath path))
    (h : fs.read path = .ok content) : (after cs fs).read path = .ok content := by
  induction cs generalizing fs
  case nil => exact h
  case cons c cs ih =>
    have ⟨hc, hcs⟩ := List.forall_mem_cons.mp hp
    exact ih hcs <| (exec_step c fs).effect.read hc h

-- What is in a file was there at first, or a command that succeeded put it there.
theorem after_origin (h : (after cs fs).content? l = some content) :
    fs.content? l = some content ∨
      ∃ pre c post, cs = pre ++ c :: post ∧ (∃ text, (c.exec (after pre fs)).1 = .ok text) ∧
        Writes (after pre fs) c l content := by
  induction cs generalizing fs
  case nil => exact .inl h
  case cons c cs ih =>
    obtain h | ⟨pre, c', post, rfl, ht, hw⟩ := ih h
    case inr => exact .inr ⟨c :: pre, c', post, rfl, ht, hw⟩
    case inl =>
      obtain hk | ⟨ht, k, content', hw, hk⟩ := (exec_step c fs).effect.content?
      case inl => exact .inl <| hk l ▸ h
      case inr =>
        rw [hk] at h
        split at h
        case isFalse => exact .inl h
        case isTrue hl =>
          cases h
          exact .inr ⟨[], c, cs, rfl, ht, hl ▸ hw⟩

-- The document of an `emit` is up to date, for the command itself and for whoever checks it.
structure Settled (o : EmitOptions) (fs : FileSystem) : Prop where
  stays : ((emit o).exec fs).2 = fs
  emits : ∃ text, ((emit o).exec fs).1 = .ok text
  checks : ∃ text, ((emit { o with check := true }).exec fs).1 = .ok text

theorem Settled.of_agrees (hd : fs.Documents o d) (ho : ¬o.toOutput) (h : fs.Agrees o d) :
    Settled o fs := by
  have ⟨he, ht⟩ := (exec_step (.emit o) fs).same_of_agrees hd ho h
  have hc : fs.Documents { o with check := true } d := hd.of_read rfl fun _ => id
  exact ⟨he, ht, ((exec_step (.emit { o with check := true }) fs).same_of_agrees hc ho h).right⟩

-- Commands that write neither to the stack file nor to the document.
def Spares (c : Command) (o : EmitOptions) : Prop :=
  c.place? ≠ some (.ofPath o.file) ∧ c.place? ≠ some (.ofPath o.target)

theorem after_settled (ho : ¬o.toOutput) (hc : ¬o.check) (ht : ((emit o).exec fs).1 = .ok text)
    (hne : Location.ofPath o.file ≠ .ofPath o.target) (hs : ∀ c ∈ cs, c.Spares o) :
    Settled o (after cs ((emit o).exec fs).2) := by
  have ⟨d, hd, ⟨bytes, hr, ha⟩, _⟩ := (exec_step (.emit o) fs).emits.placed ho hc text ht
  have he := (exec_step (.emit o) fs).effect
  have hp : (emit o).place? ≠ some (.ofPath o.file) := by simp [place?, ho, hc, hne.symm]
  have hf : ∀ c ∈ cs, c.place? ≠ some (.ofPath o.file) := fun c h => (hs c h).left
  have ht : ∀ c ∈ cs, c.place? ≠ some (.ofPath o.target) := fun c h => (hs c h).right
  have hd := hd.of_read rfl fun _ h => after_read hf (he.read hp h)
  exact .of_agrees hd ho ⟨bytes, after_read ht hr, ha⟩

-- A run of commands, and what was there when it began.
structure Session (cs : List Command) (fs : FileSystem) : Prop where
  careful : ∀ pre c post, cs = pre ++ c :: post → Careful c (after pre fs)
  rest : ∀ l, (∀ c ∈ cs, c.place? ≠ some l) → (after cs fs).content? l = fs.content? l
  origin : ∀ l content, (after cs fs).content? l = some content → fs.content? l = some content ∨
    ∃ pre c post, cs = pre ++ c :: post ∧ (∃ text, (c.exec (after pre fs)).1 = .ok text) ∧
      Writes (after pre fs) c l content
  settled : ∀ pre o post, cs = pre ++ .emit o :: post → ¬o.toOutput → ¬o.check →
    ∀ text, ((emit o).exec (after pre fs)).1 = .ok text →
      Location.ofPath o.file ≠ .ofPath o.target → (∀ c ∈ post, c.Spares o) →
        Settled o (after cs fs)

theorem session (cs : List Command) (fs : FileSystem) : Session cs fs where
  careful pre c _ _ := exec_careful c (after pre fs)
  rest _ := after_content?
  origin _ _ := after_origin
  settled pre o post h ho hc text ht hne hs := by
    subst h
    rw [after_append]
    exact after_settled ho hc ht hne hs

-- A project with a stack file only.
def smallProject : FileSystem :=
  ⟨[(["stack.yaml"], .file "name: s\n".toUTF8)]⟩

def smallText : String :=
  "name: s\nruntime: yaml\nconfig: \x7b\x7d\nvariables: \x7b\x7d\n" ++
  "resources: \x7b\x7d\noutputs: \x7b\x7d\n"

def smallOutput : FileSystem :=
  ⟨(["Pulumi.yaml"], .file smallText.toUTF8) :: smallProject.entries⟩

def smallEmit : EmitOptions := ⟨"stack.yaml", .pulumi, ".", false, false⟩

theorem smallProject_document : ∃ d, smallProject.Documents smallEmit d ∧ d.render = smallText := by
  have h : (smallProject.document smallEmit).toOption.map Document.render = some smallText := by
    decide +kernel
  cases hs : smallProject.document smallEmit
  all_goals rw [hs] at h
  case error => exact nomatch h
  case ok d  => exact ⟨d, FileSystem.document_ok_iff.mp hs, Option.some.inj h⟩

theorem smallProject_absent : smallProject.read "./Pulumi.yaml" = .error .notFound := by
  decide +kernel

theorem smallProject_distinguishes (h : o.target = "./Pulumi.yaml") :
    smallProject.Distinguishes o d := by
  intro bytes hr
  rw [h, smallProject_absent] at hr
  contradiction

-- The first document of a project, which is there from then on.
theorem session_smallProject :
    (after [.emit smallEmit] smallProject).read "./Pulumi.yaml" = .ok smallText.toUTF8 ∧
      Settled smallEmit (after [.emit smallEmit, .validate "stack.yaml"] smallProject) := by
  have ht : ((emit smallEmit).exec smallProject).1.toOption.isSome := by decide +kernel
  have ht := Attempt.eq_ok_of_isSome ht
  have hs := session [.emit smallEmit, .validate "stack.yaml"] smallProject
  have ⟨d, hd, hr⟩ := smallProject_document
  constructor
  case left =>
    have he := (hs.careful [] _ _ rfl).emits _ rfl
    have ⟨d', hd', _, h⟩ := he.placed (by decide) (by decide) _ ht
    cases hd.unique hd'
    exact hr ▸ h (smallProject_distinguishes rfl)
  case right =>
    have hne : Location.ofPath "stack.yaml" ≠ .ofPath "./Pulumi.yaml" := by decide +kernel
    have hv : ∀ c ∈ [validate "stack.yaml"], c.Spares smallEmit :=
      List.forall_mem_singleton.mpr ⟨nofun, nofun⟩
    exact hs.settled [] _ _ rfl (by decide) (by decide) _ ht hne hv

-- The document of a stack file is in its place, octet by octet.
def UpToDate (o : EmitOptions) (fs : FileSystem) : Prop :=
  ∃ d, fs.Documents o d ∧ fs.read o.target = .ok d.render.toUTF8

-- A check succeeds exactly if the document is up to date, unless the document is also printed: then
-- nothing is compared.
theorem emit_check_ok_iff (hc : o.check) (hn : ∀ d, fs.Documents o d → fs.Distinguishes o d) :
    (∃ text, ((emit o).exec fs).1 = .ok text) ↔
      UpToDate o fs ∨ o.toOutput ∧ ∃ d, fs.Documents o d := by
  have s := exec_step (.emit o) fs
  constructor
  case mp =>
    intro ⟨text, ht⟩
    rw [ht] at s
    generalize ((emit o).exec fs).2 = fs' at s
    cases s
    case shown d document shows =>
      exact .inr ⟨shows, d, FileSystem.document_ok_iff.mp document⟩
    case placing d document places p =>
      have hd := FileSystem.document_ok_iff.mp document
      exact .inl ⟨d, hd, p.eq_of_check hc ▸ p.read (hn d hd)⟩
  case mpr =>
    intro h
    by_cases ho : o.toOutput
    case pos =>
      have ⟨d, hd⟩ : ∃ d, fs.Documents o d := h.elim (fun ⟨d, hd, _⟩ => ⟨d, hd⟩) (·.right)
      exact ⟨_, s.shown_of_toOutput hd ho⟩
    case neg =>
      have ⟨d, hd, hr⟩ := h.resolve_right fun hp => ho hp.left
      exact (s.same_of_agrees hd ho ⟨_, hr, rfl⟩).right

def smallCheck : EmitOptions :=
  { smallEmit with check := true }

-- The check fails as long as there is no document, and succeeds when it is there.
theorem emit_check_ok_iff_smallCheck :
    (¬∃ text, ((emit smallCheck).exec smallProject).1 = .ok text) ∧
      ∃ text, ((emit smallCheck).exec smallOutput).1 = .ok text := by
  have ⟨d, hd, ht⟩ := smallProject_document
  constructor
  case left =>
    rw [emit_check_ok_iff rfl fun _ _ => smallProject_distinguishes rfl]
    rintro (⟨_, _, h⟩ | ⟨h, _⟩)
    · exact nomatch smallProject_absent.symm.trans h
    · contradiction
  case right =>
    have hr : smallOutput.read smallCheck.target = .ok d.render.toUTF8 := by
      rw [ht]
      decide +kernel
    have hf : smallOutput.read smallCheck.file = smallProject.read smallEmit.file := by
      decide +kernel
    have hd : smallOutput.Documents smallCheck d := hd.of_read rfl fun _ h => hf.trans h
    refine (emit_check_ok_iff rfl fun d' hd' bytes h => ?_).mpr <| .inl ⟨d, hd, hr⟩
    cases hd'.unique hd
    cases h.symm.trans hr
    exact .refl _

def smallPrint : EmitOptions :=
  { smallEmit with toOutput := true, check := true }

-- The check succeeds as the document is printed, though there is none in its place.
theorem not_upToDate_smallPrint :
    (∃ text, ((emit smallPrint).exec smallProject).1 = .ok text) ∧ smallPrint.check ∧
      (∀ d, smallProject.Distinguishes smallPrint d) ∧ ¬smallProject.exists? smallPrint.target ∧
        ¬UpToDate smallPrint smallProject := by
  have ht : ((emit smallPrint).exec smallProject).1.toOption.isSome := by decide +kernel
  have hx : ¬smallProject.exists? smallPrint.target := by decide +kernel
  exact ⟨⟨_, Attempt.eq_ok_of_isSome ht⟩, rfl, fun _ => smallProject_distinguishes rfl, hx,
    fun ⟨_, _, h⟩ => nomatch smallProject_absent.symm.trans h⟩

end Command

end Lakehouse
