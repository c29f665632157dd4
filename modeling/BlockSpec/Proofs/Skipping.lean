import BlockSpec.Proofs.Fingerprint
import BlockSpec.Proofs.Turns
import Mathlib

/-! # Skipping specs

A spec is skipped when the first line of its module carries its fingerprint; nothing else of the
module is looked at. That this is enough is a matter of history: whatever runs have been made,
under whatever settings, and whatever has happened to other files in between, every module below an
output root was compiled from something that was fingerprinted.

    generate   compiles and writes, or leaves the module alone
    clean      takes modules away
    check      changes nothing
    edit       leaves modules alone, or takes them away

So a module that carries a fingerprint was compiled from the bytes of that fingerprint, unless two of
the fingerprinted byte strings collide, and these bytes tell the spec and the settings. -/

namespace BlockSpec

/-! ### Histories -/

/-- Something that happens to the files of a project. -/
inductive Action where
  | generate (suite : Suite) (dirs : List Path)
  | check (suite : Suite) (dirs : List Path)
  | clean (suite : Suite) (dirs : List Path)
  /-- Files are created, edited, moved or deleted by others. -/
  | edit (after : FileSystem)

/-- The byte strings that a run through specs takes the fingerprints of. -/
def Suite.fingerprinted (s : Suite) (fs : FileSystem) : List SpecFile → List (List UInt8)
  | [] => []
  | spec :: rest =>
    (match fs.readText spec.path with
      | .ok content => [fingerprintBytes content s.config.options]
      | .error _ => []) ++ s.fingerprinted (s.generateOne fs spec).2 rest

/-- An edit that makes no links and no modules, and changes no module that it does not delete. -/
structure LeavesModules (before after : FileSystem) : Prop where
  plain : after.Plain
  modules : ∀ l c, FileSystem.isModule l = true → after.get? l = some (.file c) →
    before.get? l = some (.file c)

namespace Action

/-- The files after an action. A run that cannot search its directories changes nothing. -/
def apply (fs : FileSystem) : Action → FileSystem
  | generate s dirs => match s.generate fs dirs with
    | .ok (_, fs') => fs'
    | .error _ => fs
  | check _ _ => fs
  | clean s dirs => match s.clean fs dirs with
    | .ok (_, fs') => fs'
    | .error _ => fs
  | edit after => after

/-- Base classes hold no zero character, and edits leave modules alone. -/
def Allowed (fs : FileSystem) : Action → Prop
  | generate s _ | check s _ | clean s _ => Char.ofNat 0 ∉ s.config.baseClass
  | edit after => LeavesModules fs after

/-- The place of the output root that an action uses. -/
def root? (fs : FileSystem) : Action → Option Location
  | generate s _ | check s _ | clean s _ => some (fs.place s.outputRoot)
  | edit _ => none

/-- The byte strings that generating takes the fingerprints of. -/
def fingerprinted (fs : FileSystem) : Action → List (List UInt8)
  | generate s dirs => match s.specs fs dirs with
    | .ok specs => s.fingerprinted fs specs
    | .error _ => []
  | _ => []

/-- The files after a history. -/
def replay (fs : FileSystem) (history : List Action) : FileSystem := history.foldl apply fs

/-- What the actions of a history give, each on the files it finds. -/
def collect {α : Type} (f : FileSystem → Action → List α) (fs : FileSystem) :
    List Action → List α
  | [] => []
  | a :: rest => f fs a ++ collect f (a.apply fs) rest

/-- The places of the output roots that a history uses. -/
def roots (fs : FileSystem) (history : List Action) : List Location :=
  collect (fun fs a => (a.root? fs).toList) fs history

/-- The byte strings that a history takes the fingerprints of. -/
def known (fs : FileSystem) (history : List Action) : List (List UInt8) :=
  collect fingerprinted fs history

theorem collect_append {α : Type} (f : FileSystem → Action → List α) (fs : FileSystem)
    (history rest : List Action) : collect f fs (history ++ rest) =
      collect f fs history ++ collect f (replay fs history) rest := by
  induction history generalizing fs with
  | nil => rfl
  | cons a history ih =>
    rw [List.cons_append, collect, collect, ih, List.append_assoc]
    rfl

variable {s : Suite} {fs : FileSystem} {history : List Action} {dirs : List Path}

/-- Generating uses its output root. -/
theorem place_mem_roots : (replay fs history).place s.outputRoot ∈
    roots fs (history ++ [Action.generate s dirs]) := by
  rw [roots, collect_append]
  exact List.mem_append_right _ (List.mem_append_left _ (List.mem_singleton_self _))

theorem known_generate {specs : List SpecFile}
    (hspecs : s.specs (replay fs history) dirs = .ok specs) :
    known fs (history ++ [Action.generate s dirs]) =
      known fs history ++ s.fingerprinted (replay fs history) specs := by
  rw [known, collect_append, collect, collect, fingerprinted, hspecs, List.append_nil]
  rfl

end Action

/-- A history that starts without links and without modules below the output roots it uses, whose
actions are allowed, and whose fingerprints do not collide. -/
structure Admissible (fs : FileSystem) (history : List Action) : Prop where
  plain : fs.Plain
  no_modules : ∀ root ∈ Action.roots fs history, ∀ l c, root <+: l →
    FileSystem.isModule l = true → fs.get? l ≠ some (.file c)
  allowed : ∀ before a after, history = before ++ a :: after → a.Allowed (Action.replay fs before)
  no_collision : ∀ bytes ∈ Action.known fs history, ∀ bytes' ∈ Action.known fs history,
    sha256 bytes = sha256 bytes' → bytes = bytes'

/-! ### One spec -/

variable {s : Suite} {fs fs' : FileSystem} {spec : SpecFile}

/-- What generating one spec can do. -/
inductive GeneratesOne (s : Suite) (fs : FileSystem) (spec : SpecFile) :
    Outcome → FileSystem → Prop
  | failed {why : Diagnostic} {fs' : FileSystem} :
      fs.Extends fs' → GeneratesOne s fs spec (.failed why) fs'
  | unchanged {content : Text} : fs.readText spec.path = .ok content →
      Suite.isCurrent fs (spec.output s.outputRoot) content s.config.options = true →
      GeneratesOne s fs spec (.unchanged (spec.output s.outputRoot)) fs
  | generated {content path text : Text} {fs₁ : FileSystem} : fs.Extends fs₁ →
      fs.readText spec.path = .ok content →
      compile ⟨spec.path, content⟩ path s.config.options = .ok text →
      fs.place (spec.output s.outputRoot) ≠ [] →
      fs₁.get? (fs.place (spec.output s.outputRoot)) ≠ some .directory →
      (fs₁.put (fs.place (spec.output s.outputRoot)) (.file (.text text))).Plain →
      GeneratesOne s fs spec (.generated (spec.output s.outputRoot))
        (fs₁.put (fs.place (spec.output s.outputRoot)) (.file (.text text)))

theorem generateOne_spec (s : Suite) (hfs : fs.Plain) (spec : SpecFile) :
    GeneratesOne s fs spec (s.generateOne fs spec).1 (s.generateOne fs spec).2 := by
  have hturn := generateOne_turn s fs spec
  generalize (s.generateOne fs spec).1 = outcome, (s.generateOne fs spec).2 = fs' at hturn
  cases hturn with
  | refused => exact .failed hfs.extends_refl
  | current _ hcontent hcurrent => exact .unchanged hcontent hcurrent
  | blocked => exact .failed (hfs.extends_makeDirectories _ _)
  | @written text made _ hcompile hwrite =>
    have hext := hfs.extends_makeDirectories .nothing made
    obtain ⟨content, hcontent⟩ := Suite.readText_of_compileFileUnder hcompile
    have hcompile := (Suite.compileFile_eq hfs hcontent _).symm.trans hcompile
    obtain ⟨rfl, hplain, hne, hdir⟩ := hext.plain.write_eq hwrite
    rw [FileSystem.place_congr hext.workingDirectory] at hplain hne hdir ⊢
    exact .generated hext hcontent hcompile hne hdir hplain

namespace GeneratesOne

variable {outcome : Outcome}

theorem plain (hfs : fs.Plain) (h : GeneratesOne s fs spec outcome fs') : fs'.Plain := by
  cases h with
  | failed hext => exact hext.plain
  | unchanged => exact hfs
  | generated _ _ _ _ _ hplain => exact hplain

theorem workingDirectory (h : GeneratesOne s fs spec outcome fs') :
    fs'.workingDirectory = fs.workingDirectory := by
  cases h with
  | failed hext => exact hext.workingDirectory
  | unchanged => rfl
  | generated hext => exact hext.workingDirectory

end GeneratesOne

/-! ### Runs through specs -/

namespace Suite

theorem fingerprinted_append (s : Suite) (specs specs' : List SpecFile) (fs : FileSystem) :
    s.fingerprinted fs (specs ++ specs') = s.fingerprinted fs specs ++
      s.fingerprinted (each s.generateOne fs specs).2 specs' := by
  induction specs generalizing fs with
  | nil => rfl
  | cons spec rest ih =>
    rw [List.cons_append, fingerprinted, fingerprinted, ih, List.append_assoc]
    rfl

theorem mem_fingerprinted_cons {content : Text} (h : fs.readText spec.path = .ok content)
    (rest : List SpecFile) :
    fingerprintBytes content s.config.options ∈ s.fingerprinted fs (spec :: rest) := by
  rw [fingerprinted, h]
  exact List.mem_append_left _ (List.mem_singleton_self _)

theorem generate_of_specs {dirs : List Path} {specs : List SpecFile}
    (h : s.specs fs dirs = .ok specs) :
    s.generate fs dirs = .ok (each s.generateOne fs specs) := by
  rw [generate_eq, h]
  rfl

theorem exists_of_generate {dirs : List Path} {reports : List FileReport}
    (h : s.generate fs dirs = .ok (reports, fs')) : ∃ specs, s.specs fs dirs = .ok specs ∧
      (each s.generateOne fs specs).1 = reports ∧ (each s.generateOne fs specs).2 = fs' := by
  rw [generate_eq] at h
  obtain ⟨specs, hspecs, heach⟩ := exists_of_map_eq_ok h
  exact ⟨specs, hspecs, congrArg Prod.fst heach, congrArg Prod.snd heach⟩

theorem generateOne_of_isCurrent {content : Text} (hforce : s.force = false)
    (hread : fs.readText spec.path = .ok content)
    (hcurrent : isCurrent fs (spec.output s.outputRoot) content s.config.options = true) :
    s.generateOne fs spec = (.unchanged (spec.output s.outputRoot), fs) := by
  rw [isCurrent] at hcurrent
  simp [generateOne, generateOneUnder, hforce, hread, hcurrent]

theorem generateOneUnder_of_unread {d : Denials} {e : FileError}
    (h : d.readText fs spec.path = .error e) :
    s.generateOneUnder d fs spec = (.failed (fileFault spec.path e), fs) := by
  rw [generateOneUnder, h]

/-- A spec that is read, is not current and compiles: when its directories are there, all depends on
the writing. -/
theorem generateOneUnder_of_compiled {d : Denials} {content text : Text} {output parent : Path}
    {made : FileSystem} (houtput : spec.output s.outputRoot = output)
    (hread : d.readText fs spec.path = .ok content)
    (hstale : isCurrentUnder d fs output content s.config.options = false)
    (hcompile : compileFileUnder d fs spec.path s.config.options = .ok text)
    (hparent : Path.parent? output = some parent)
    (hmake : d.makeDirectories fs parent = (made, none)) :
    s.generateOneUnder d fs spec = match d.write made output (.text text) with
      | .error e => (.failed (fileFault output e), made)
      | .ok fs' => (.generated output, fs') := by
  rw [compileFileUnder, hread] at hcompile
  have hturn : s.generateOneUnder d fs spec = writeModule d fs output text := by
    simp only [generateOneUnder, houtput, hread, hstale, hcompile, Bool.and_false,
      Bool.false_eq_true, if_false]
  cases hwrite : d.write made output (.text text) <;>
    simp only [hturn, writeModule, hparent, hmake, hwrite]

theorem generateOne_of_written (hfs : fs.Plain) {content path text : Text} {output parent : Path}
    {made : FileSystem} (houtput : spec.output s.outputRoot = output)
    (hread : fs.readText spec.path = .ok content)
    (hstale : isCurrent fs output content s.config.options = false)
    (hplace : FileSystem.absolute (fs.place spec.path) = path)
    (hcompile : compile ⟨spec.path, content⟩ path s.config.options = .ok text)
    (hparent : Path.parent? output = some parent)
    (hmake : fs.makeDirectories parent = (made, none))
    (hwrite : made.write output (.text text) = .ok fs') :
    s.generateOne fs spec = (.generated output, fs') := by
  rw [← hplace, ← compileFile_eq hfs hread] at hcompile
  rw [generateOne, generateOneUnder_of_compiled (d := .nothing) houtput hread hstale hcompile
    hparent hmake, Denials.write_nothing, hwrite]

/-- A run stays in a plain file system and in its working directory. -/
theorem plain_each (s : Suite) (hfs : fs.Plain) (specs : List SpecFile) :
    (each s.generateOne fs specs).2.Plain ∧
      (each s.generateOne fs specs).2.workingDirectory = fs.workingDirectory := by
  refine each_induction (P := fun fs' => fs'.Plain ∧ fs'.workingDirectory = fs.workingDirectory)
    (fun fs' spec _ ⟨hplain, hwd⟩ => ?_) ⟨hfs, rfl⟩
  have hstep := generateOne_spec s hplain spec
  exact ⟨hstep.plain hplain, hstep.workingDirectory.trans hwd⟩

end Suite

/-! ### Every module was compiled -/

/-- A text that was compiled from something that was fingerprinted. -/
def IsCompiled (known : List (List UInt8)) (text : Text) : Prop :=
  ∃ (file content path : Text) (config : Config), Char.ofNat 0 ∉ config.baseClass ∧
    fingerprintBytes content config.options ∈ known ∧
    compile ⟨file, content⟩ path config.options = .ok text

/-- The modules below the output roots were compiled. -/
structure Sound (roots : List Location) (known : List (List UInt8)) (fs : FileSystem) : Prop where
  plain : fs.Plain
  compiled : ∀ l c, FileSystem.isModule l = true → (∃ root ∈ roots, root <+: l) →
    fs.get? l = some (.file c) → ∃ text, c = .text text ∧ IsCompiled known text

variable {roots : List Location} {known : List (List UInt8)}

namespace Sound

theorem of_files (hs : Sound roots known fs) (hplain : fs'.Plain)
    (hfiles : ∀ l c, FileSystem.isModule l = true → fs'.get? l = some (.file c) →
      fs.get? l = some (.file c)) : Sound roots known fs' :=
  ⟨hplain, fun l c hl hroot hget => hs.compiled l c hl hroot (hfiles l c hl hget)⟩

theorem generateOne (hs : Sound roots known fs) (hbase : Char.ofNat 0 ∉ s.config.baseClass)
    (hknown : ∀ content, fs.readText spec.path = .ok content →
      fingerprintBytes content s.config.options ∈ known) :
    Sound roots known (s.generateOne fs spec).2 := by
  have hstep := generateOne_spec s hs.plain spec
  generalize (s.generateOne fs spec).1 = outcome, (s.generateOne fs spec).2 = fs' at hstep
  cases hstep with
  | failed hext => exact hs.of_files hext.plain fun l c _ => hext.files l c
  | unchanged => exact hs
  | @generated content path text fs₁ hext hcontent hcompile hne hdir hplain =>
    refine ⟨hplain, fun l c hl hroot hget => ?_⟩
    by_cases heq : l = fs.place (spec.output s.outputRoot)
    · rw [heq, FileSystem.get?_put_self _ hne] at hget
      obtain rfl := Entry.file.inj (Option.some.inj hget)
      exact ⟨text, rfl, spec.path, content, path, s.config, hbase, hknown content hcontent,
        hcompile⟩
    · rw [FileSystem.get?_put_of_ne _ heq] at hget
      exact hs.compiled l c hl hroot (hext.files l c hget)

theorem cleanOne (hs : Sound roots known fs) (s : Suite) (spec : SpecFile) :
    Sound roots known (s.cleanOne fs spec).2 := by
  have hremoval := cleanOne_removal s fs spec
  generalize (s.cleanOne fs spec).1 = outcome, (s.cleanOne fs spec).2 = fs' at hremoval
  cases hremoval with
  | absent | failed => exact hs
  | removed hremove =>
    obtain ⟨rfl, hplain, hne⟩ := hs.plain.removeFile_eq hremove
    refine hs.of_files hplain fun l c _ hget => ?_
    by_cases heq : l = fs.place (spec.output s.outputRoot)
    · rw [heq, FileSystem.get?_erase_self _ hne] at hget
      cases hget
    · rwa [FileSystem.get?_erase_of_ne _ heq] at hget

/-- A run through specs compiles what it writes. -/
theorem each_generateOne (hs : Sound roots known fs) (hbase : Char.ofNat 0 ∉ s.config.baseClass)
    {specs : List SpecFile} (hknown : ∀ bytes ∈ s.fingerprinted fs specs, bytes ∈ known) :
    Sound roots known (Suite.each s.generateOne fs specs).2 := by
  induction specs generalizing fs with
  | nil => exact hs
  | cons spec rest ih =>
    refine ih (hs.generateOne hbase fun content hcontent => ?_)
      fun bytes hbytes => hknown bytes (List.mem_append_right _ hbytes)
    exact hknown _ (Suite.mem_fingerprinted_cons hcontent rest)

/-- One action keeps modules compiled. -/
theorem apply (hs : Sound roots known fs) {a : Action} (ha : a.Allowed fs)
    (hknown : ∀ bytes ∈ a.fingerprinted fs, bytes ∈ known) : Sound roots known (a.apply fs) := by
  cases a with
  | generate s dirs =>
    rw [Action.apply, Suite.generate_eq]
    cases hspecs : s.specs fs dirs with
    | error d => exact hs
    | ok specs =>
      rw [Action.fingerprinted, hspecs] at hknown
      exact hs.each_generateOne ha hknown
  | check s dirs => exact hs
  | clean s dirs =>
    rw [Action.apply, Suite.clean_eq]
    cases s.specs fs dirs with
    | error d => exact hs
    | ok specs => exact Suite.each_induction (fun fs spec _ hs => hs.cleanOne s spec) hs
  | edit after => exact hs.of_files ha.plain ha.modules

/-- All actions of a history do. -/
theorem replay (hs : Sound roots known fs) {history : List Action}
    (hallowed : ∀ before a after, history = before ++ a :: after →
      a.Allowed (Action.replay fs before))
    (hknown : ∀ bytes ∈ Action.known fs history, bytes ∈ known) :
    Sound roots known (Action.replay fs history) := by
  induction history generalizing fs with
  | nil => exact hs
  | cons a rest ih =>
    have ha : a.Allowed fs := hallowed [] a rest rfl
    refine ih (hs.apply ha fun bytes hbytes => ?_) (fun before b after hsplit => ?_)
      fun bytes hbytes => hknown bytes (List.mem_append_right _ hbytes)
    · exact hknown bytes (List.mem_append_left _ hbytes)
    · exact hallowed (a :: before) b after (by rw [hsplit]; rfl)

end Sound

/-- At the start there are no modules below the roots. -/
theorem Admissible.sound {history : List Action} (h : Admissible fs history) :
    Sound (Action.roots fs history) (Action.known fs history) fs :=
  ⟨h.plain, fun l c hl ⟨root, hroot, hbelow⟩ hget =>
    absurd hget (h.no_modules root hroot l c hbelow hl)⟩

theorem Admissible.sound_replay {history rest : List Action} (h : Admissible fs (history ++ rest)) :
    Sound (Action.roots fs (history ++ rest)) (Action.known fs (history ++ rest))
      (Action.replay fs history) := by
  refine h.sound.replay (fun before a after heq => ?_) fun bytes hbytes => ?_
  · exact h.allowed before a (after ++ rest) (by simp [heq])
  · rw [Action.known, Action.collect_append]
    exact List.mem_append_left _ hbytes

/-! ### What is skipped -/

/-- A module that carries the fingerprint of a spec was compiled from its text, under the same
settings. -/
theorem Sound.compiled_of_isCurrent (hs : Sound roots known fs)
    (hknown : ∀ bytes ∈ known, ∀ bytes' ∈ known, sha256 bytes = sha256 bytes' → bytes = bytes')
    {content : Text} (hbase : Char.ofNat 0 ∉ s.config.baseClass)
    (hbytes : fingerprintBytes content s.config.options ∈ known) {output : Path}
    (houtput : Path.IsOutput s.outputRoot output) (hroot : fs.place s.outputRoot ∈ roots)
    (hcurrent : Suite.isCurrent fs output content s.config.options = true) :
    ∃ file path text, fs.readText output = .ok text ∧
      compile ⟨file, content⟩ path s.config.options = .ok text := by
  obtain ⟨text, hread, hdigest⟩ := isCurrent_iff.mp hcurrent
  obtain ⟨hbelow, hmodule⟩ := hs.plain.readText_output houtput hread
  obtain ⟨text', htext, file, content', path, config, hbase', hbytes', hcompile⟩ :=
    hs.compiled _ _ hmodule ⟨_, hroot, hbelow⟩ (hs.plain.get?_of_readText hread)
  obtain rfl := Content.text.inj htext
  rw [(compile_eq_ok hcompile).1] at hdigest
  have hsame := hknown _ hbytes' _ hbytes (Digest.hex_injective (Option.some.inj hdigest))
  obtain ⟨rfl, hclass, hmarkers⟩ := fingerprintBytes_inj hbase' hbase hsame
  have hoptions : config.options = s.config.options := by
    rw [Config.options, Config.options, Options.mk.injEq]
    exact ⟨hclass, hmarkers, rfl⟩
  exact ⟨file, path, text, hread, hoptions ▸ hcompile⟩

/-- A run leaves a module as it is, unless some spec of it is generated to the same place. -/
theorem readText_each_or (s : Suite) (hfs : fs.Plain) {output : Path} {text : Text}
    (hread : fs.readText output = .ok text) (specs : List SpecFile) :
    (Suite.each s.generateOne fs specs).2.readText output = .ok text ∨
      ∃ r ∈ (Suite.each s.generateOne fs specs).1, ∃ p, r.outcome = .generated p ∧
        fs.place p = fs.place output := by
  induction specs generalizing fs with
  | nil => exact Or.inl hread
  | cons spec rest ih =>
    have hstep := generateOne_spec s hfs spec
    rcases (generateOne_turn s fs spec).readText_or hfs hread with hread | ⟨houtcome, hplace, -⟩
    · rcases ih (hstep.plain hfs) hread with hread | ⟨r, hr, p, houtcome, hplace⟩
      · exact Or.inl hread
      · refine Or.inr ⟨r, List.mem_cons_of_mem _ hr, p, houtcome, ?_⟩
        rwa [FileSystem.place_congr hstep.workingDirectory,
          FileSystem.place_congr hstep.workingDirectory] at hplace
    · exact Or.inr ⟨_, List.mem_cons_self, _, houtcome, hplace.symm⟩

/-- At the turn of a spec, modules are compiled, its own bytes are among those that are
fingerprinted, and the output root is among those that are used. -/
theorem Admissible.at_turn {history : List Action} {dirs : List Path}
    (h : Admissible fs (history ++ [Action.generate s dirs])) {before rest : List SpecFile}
    (hspecs : s.specs (Action.replay fs history) dirs = .ok (before ++ spec :: rest))
    {now : FileSystem}
    (hnow : (Suite.each s.generateOne (Action.replay fs history) before).2 = now) :
    Sound (Action.roots fs (history ++ [Action.generate s dirs]))
        (Action.known fs (history ++ [Action.generate s dirs])) now ∧
      (∀ content, now.readText spec.path = .ok content → fingerprintBytes content
        s.config.options ∈ Action.known fs (history ++ [Action.generate s dirs])) ∧
      now.place s.outputRoot ∈ Action.roots fs (history ++ [Action.generate s dirs]) ∧
      Path.IsOutput s.outputRoot (spec.output s.outputRoot) := by
  have hbase : Char.ofNat 0 ∉ s.config.baseClass := h.allowed history (.generate s dirs) [] rfl
  have hknown := Action.known_generate hspecs
  rw [Suite.fingerprinted_append, hnow] at hknown
  have hstart := h.sound_replay
  have hsound := hstart.each_generateOne hbase
    fun bytes hbytes => hknown ▸ List.mem_append_right _ (List.mem_append_left _ hbytes)
  have hwd := (Suite.plain_each s hstart.plain before).2
  rw [hnow] at hsound hwd
  refine ⟨hsound, fun content hcontent => ?_, ?_, ?_⟩
  · rw [hknown]
    exact List.mem_append_right _ (List.mem_append_right _
      (Suite.mem_fingerprinted_cons hcontent rest))
  · rw [FileSystem.place_congr hwd]
    exact Action.place_mem_roots
  · exact SpecFile.isOutput_of_mem_discover hstart.plain.names hspecs
      (List.mem_append_right _ List.mem_cons_self) _

/-- A text is what a spec compiles to, for some path that it records: a fresh module differs from it
in that path at most. -/
def IsModuleOf (options : Options) (content text : Text) : Prop :=
  ∃ head path rest, text = head ++ path ++ rest ∧ ∀ file path' : Text,
    compile ⟨file, content⟩ path' options = .ok (head ++ path' ++ rest)

/-- After any admissible history, a spec that is reported unchanged has a module that is what the
spec, as it is at its turn, compiles to under the settings of the run; and so it has at the end of
the run, unless a later spec was generated to the same place. -/
theorem unchanged_is_compiled {history : List Action} {dirs : List Path}
    (h : Admissible fs (history ++ [.generate s dirs])) {reports : List FileReport}
    (hrun : s.generate (Action.replay fs history) dirs = .ok (reports, fs')) {k : Nat}
    {path output : Path} (hk : reports[k]? = some ⟨path, .unchanged output⟩) :
    ∃ specs now content text, s.specs (Action.replay fs history) dirs = .ok specs ∧
      (Suite.each s.generateOne (Action.replay fs history) (specs.take k)).2 = now ∧
      now.readText path = .ok content ∧ now.readText output = .ok text ∧
      IsModuleOf s.config.options content text ∧
      (fs'.readText output = .ok text ∨ ∃ r ∈ reports.drop (k + 1), ∃ p,
        r.outcome = .generated p ∧ fs'.place p = fs'.place output) := by
  obtain ⟨specs, hspecs, rfl, rfl⟩ := Suite.exists_of_generate hrun
  obtain ⟨spec, rest, hsplit, hreport, hdrop, hend⟩ := Suite.exists_turn hk
  generalize hnow : (Suite.each s.generateOne (Action.replay fs history) (specs.take k)).2 = now
    at hreport hdrop hend
  obtain ⟨rfl, houtcome⟩ := FileReport.mk.inj hreport
  obtain ⟨hsound, hbytes, hroot, houtput⟩ := h.at_turn (hsplit ▸ hspecs) hnow
  have hbase : Char.ofNat 0 ∉ s.config.baseClass := h.allowed history (.generate s dirs) [] rfl
  have hstep := generateOne_spec s hsound.plain spec
  rw [← houtcome] at hstep
  rw [hdrop, hend]
  generalize (s.generateOne now spec).2 = next at hstep
  cases hstep with
  | @unchanged content hcontent hcurrent =>
    obtain ⟨file, path, text, hread, hcompile⟩ := hsound.compiled_of_isCurrent h.no_collision hbase
      (hbytes content hcontent) houtput hroot hcurrent
    obtain ⟨-, tail, htext, hfresh⟩ := compile_eq_ok hcompile
    refine ⟨specs, now, content, text, hspecs, hnow, hcontent, hread,
      ⟨_, path, tail, htext, hfresh⟩, ?_⟩
    have hwd := (Suite.plain_each s hsound.plain rest).2
    simp only [FileSystem.place_congr hwd]
    exact readText_each_or s hsound.plain hread rest

/-! A spec is generated, moved to another directory and generated again: its module still records
the old path, and is left as it is. -/

/-- The text of the spec that is moved. -/
def movedSpec : Text := "describe \"A\":\n    it \"x\": pass\n".toList

/-- The suite that it is generated with. -/
def movedSuite : Suite :=
  { config := { outputDir := some "out".toList }, temporary := "/tmp".toList }

/-- The spec compiles. -/
theorem exists_compile_movedSpec : ∃ rest, ∀ file path : Text,
    compile ⟨file, movedSpec⟩ path movedSuite.config.options =
      .ok (moduleHead movedSpec movedSuite.config.options ++ path ++ rest) := by
  have hsize : (parse movedSpec (fingerprint movedSpec movedSuite.config.options)).map Tree.size =
      .ok 3 := by
    decide +kernel
  obtain ⟨t, hparse, -⟩ := exists_of_map_eq_ok hsize
  exact exists_compile_eq hparse

/-- The text of another spec. -/
def otherSpec : Text := "describe \"B\":\n    it \"x\": pass\n".toList

theorem exists_compile_otherSpec : ∃ rest, ∀ file path : Text,
    compile ⟨file, otherSpec⟩ path movedSuite.config.options =
      .ok (moduleHead otherSpec movedSuite.config.options ++ path ++ rest) := by
  have hsize : (parse otherSpec (fingerprint otherSpec movedSuite.config.options)).map Tree.size =
      .ok 3 := by
    decide +kernel
  obtain ⟨t, hparse, -⟩ := exists_of_map_eq_ok hsize
  exact exists_compile_eq hparse

theorem hex_otherSpec_ne : (fingerprint otherSpec movedSuite.config.options).hex ≠
    (fingerprint movedSpec movedSuite.config.options).hex := by
  decide +kernel

/-- A project with the spec in a directory. -/
def projectWith (dir : String) : FileSystem :=
  (((FileSystem.empty ["w".toList]).put ["w".toList] .directory).put ["w".toList, dir.toList]
    .directory).put ["w".toList, dir.toList, "a.carinata".toList] (.file (.text movedSpec))

/-- The project with a module. -/
def withModule (fs : FileSystem) (text : Text) : FileSystem :=
  (fs.put ["w".toList, "out".toList] .directory).put ["w".toList, "out".toList, "a.py".toList]
    (.file (.text text))

/-- The spec is generated and then moved. -/
def movedHistory (text : Text) : List Action :=
  [.generate movedSuite ["s".toList], .edit (withModule (projectWith "r") text)]

theorem plain_projectWith {dir : String} (hdir : Path.Proper dir.toList) :
    (projectWith dir).Plain := by
  have hempty : (FileSystem.empty ["w".toList]).Plain := by
    refine ⟨fun l target h => ?_, fun l n e h => ?_, fun l e h => by cases h⟩
    · by_cases hl : l = []
      · rw [hl] at h; cases h
      · exact absurd (FileSystem.mem_entries hl h) List.not_mem_nil
    · exact absurd (FileSystem.mem_entries (by simp) h) List.not_mem_nil
  have hw : Path.Proper "w".toList := by decide
  have hfile : Path.Proper "a.carinata".toList := by decide
  have h1 := hempty.put (o := []) (e := .directory) rfl hw (by simp) fun _ => rfl
  have h2 := h1.put (o := ["w".toList]) (e := .directory) (by cbv) hdir (by simp) fun _ => rfl
  refine h2.put (o := ["w".toList, dir.toList]) (e := .file (.text movedSpec))
    (FileSystem.get?_put_self _ (by simp) _) hfile (by simp) fun h => ?_
  rw [FileSystem.get?_put_of_ne _ (by simp), FileSystem.get?_put_of_ne _ (by simp)] at h
  exact absurd (FileSystem.mem_entries (by simp) h) List.not_mem_nil

theorem plain_withModule {fs : FileSystem} (hfs : fs.Plain)
    (hw : fs.get? ["w".toList] = some .directory)
    (hfree : fs.get? ["w".toList, "out".toList, "a.py".toList] = none) (text : Text) :
    (withModule fs text).Plain := by
  have hout : Path.Proper "out".toList := by decide
  have hpy : Path.Proper "a.py".toList := by decide
  have h1 := hfs.put (o := ["w".toList]) (e := .directory) hw hout (by simp) fun _ => rfl
  refine h1.put (o := ["w".toList, "out".toList]) ?_ hpy (by simp) fun h => ?_
  · exact FileSystem.get?_put_self _ (by simp) _
  · rw [FileSystem.get?_put_of_ne _ (by decide)] at h
    exact absurd (hfree.symm.trans h) (by simp)

theorem generate_project {rest : Text} (hcompile : ∀ file path : Text,
    compile ⟨file, movedSpec⟩ path movedSuite.config.options =
      .ok (moduleHead movedSpec movedSuite.config.options ++ path ++ rest)) :
    movedSuite.generate (projectWith "s") ["s".toList] =
      .ok ([⟨"s/a.carinata".toList, .generated "out/a.py".toList⟩],
        withModule (projectWith "s") (moduleHead movedSpec movedSuite.config.options ++
          "/w/s/a.carinata".toList ++ rest)) := by
  have hs : Path.Proper "s".toList := by decide
  have hspecs : movedSuite.specs (projectWith "s") ["s".toList] =
      .ok [⟨"s".toList, "s/a.carinata".toList⟩] := by cbv
  have hread : (projectWith "s").readText "s/a.carinata".toList = .ok movedSpec := by cbv
  have houtput : (SpecFile.mk "s".toList "s/a.carinata".toList).output movedSuite.outputRoot =
      "out/a.py".toList := by cbv
  have habsent : (projectWith "s").readText "out/a.py".toList = .error .noEntry := by cbv
  have hplace : FileSystem.absolute ((projectWith "s").place "s/a.carinata".toList) =
      "/w/s/a.carinata".toList := by cbv
  have hparent : Path.parent? "out/a.py".toList = some "out".toList := by cbv
  have hmake : (projectWith "s").makeDirectories "out".toList =
      ((projectWith "s").put ["w".toList, "out".toList] .directory, none) := by cbv
  have hwrite : ∀ text, ((projectWith "s").put ["w".toList, "out".toList] .directory).write
      "out/a.py".toList (.text text) = .ok (withModule (projectWith "s") text) := by
    intro text; cbv
  have hstale : Suite.isCurrent (projectWith "s") "out/a.py".toList movedSpec
      movedSuite.config.options = false :=
    Suite.isCurrentUnder_of_unread (d := .nothing) habsent _ _
  rw [Suite.generate_of_specs hspecs, Suite.each_cons, Suite.generateOne_of_written
    (plain_projectWith hs) houtput hread hstale hplace (hcompile _ _) hparent hmake (hwrite _)]
  rfl

theorem generate_moved {text : Text} (hdigest : Stamp.readDigest? text =
    some (fingerprint movedSpec movedSuite.config.options).hex) :
    movedSuite.generate (withModule (projectWith "r") text) ["r".toList] =
      .ok ([⟨"r/a.carinata".toList, .unchanged "out/a.py".toList⟩],
        withModule (projectWith "r") text) := by
  have hspecs : movedSuite.specs (withModule (projectWith "r") text) ["r".toList] =
      .ok [⟨"r".toList, "r/a.carinata".toList⟩] := by cbv
  have hread : (withModule (projectWith "r") text).readText "r/a.carinata".toList =
      .ok movedSpec := by cbv
  have houtput : (SpecFile.mk "r".toList "r/a.carinata".toList).output movedSuite.outputRoot =
      "out/a.py".toList := by cbv
  have hmodule : (withModule (projectWith "r") text).readText "out/a.py".toList = .ok text := by cbv
  have hcurrent : Suite.isCurrent (withModule (projectWith "r") text) "out/a.py".toList movedSpec
      movedSuite.config.options = true := isCurrent_iff.mpr ⟨text, hmodule, hdigest⟩
  rw [Suite.generate_of_specs hspecs, Suite.each_cons,
    Suite.generateOne_of_isCurrent rfl hread (houtput.symm ▸ hcurrent), houtput]
  rfl

theorem eq_of_file_projectWith {dir : String} {l : Location} {c : Content}
    (h : (projectWith dir).get? l = some (.file c)) :
    l = ["w".toList, dir.toList, "a.carinata".toList] := by
  by_contra hl
  rw [projectWith, FileSystem.get?_put_of_ne _ hl] at h
  by_cases hdir : l = ["w".toList, dir.toList]
  · rw [hdir, FileSystem.get?_put_self _ (by simp)] at h
    cases h
  · rw [FileSystem.get?_put_of_ne _ hdir] at h
    by_cases hw : l = ["w".toList]
    · rw [hw, FileSystem.get?_put_self _ (by simp)] at h
      cases h
    · rw [FileSystem.get?_put_of_ne _ hw] at h
      by_cases hnil : l = []
      · rw [hnil] at h; cases h
      · exact absurd (FileSystem.mem_entries hnil h) List.not_mem_nil

/-- Moving the spec leaves its module alone. -/
theorem leavesModules_moved (text : Text) :
    LeavesModules (withModule (projectWith "s") text) (withModule (projectWith "r") text) := by
  have hr : Path.Proper "r".toList := by decide
  refine ⟨plain_withModule (plain_projectWith hr) (by cbv) (by cbv) text, fun l c hl h => ?_⟩
  by_cases hpy : l = ["w".toList, "out".toList, "a.py".toList]
  · rw [hpy] at h ⊢
    rwa [withModule, FileSystem.get?_put_self _ (by simp)] at h ⊢
  · rw [withModule, FileSystem.get?_put_of_ne _ hpy] at h
    by_cases hout : l = ["w".toList, "out".toList]
    · rw [hout, FileSystem.get?_put_self _ (by simp)] at h
      cases h
    · rw [FileSystem.get?_put_of_ne _ hout] at h
      rw [eq_of_file_projectWith h] at hl
      exact absurd hl (by decide)

/-- The spec is generated, then files are edited. -/
def editedHistory (after : FileSystem) : List Action :=
  [.generate movedSuite ["s".toList], .edit after]

theorem admissible_edited {text : Text} {reports : List FileReport} {after : FileSystem}
    {dirs : List Path} {specs : List SpecFile}
    (hfirst : movedSuite.generate (projectWith "s") ["s".toList] =
      .ok (reports, withModule (projectWith "s") text))
    (hleaves : LeavesModules (withModule (projectWith "s") text) after)
    (hspecs : movedSuite.specs after dirs = .ok specs)
    (hknown : ∀ bytes ∈ movedSuite.fingerprinted after specs,
      bytes = fingerprintBytes movedSpec movedSuite.config.options ∨
        bytes = fingerprintBytes otherSpec movedSuite.config.options) :
    Admissible (projectWith "s") (editedHistory after ++ [Action.generate movedSuite dirs]) := by
  have hs : Path.Proper "s".toList := by decide
  have hbase : Char.ofNat 0 ∉ movedSuite.config.baseClass := by decide
  have happly : Action.apply (projectWith "s") (.generate movedSuite ["s".toList]) =
      withModule (projectWith "s") text := by
    rw [Action.apply, hfirst]
  have hknown : ∀ bytes ∈ Action.known (projectWith "s")
      (editedHistory after ++ [Action.generate movedSuite dirs]),
      bytes = fingerprintBytes movedSpec movedSuite.config.options ∨
        bytes = fingerprintBytes otherSpec movedSuite.config.options := by
    have hbefore : movedSuite.specs (projectWith "s") ["s".toList] =
        .ok [⟨"s".toList, "s/a.carinata".toList⟩] := by cbv
    have hread : (projectWith "s").readText "s/a.carinata".toList = .ok movedSpec := by cbv
    have hedit : ∀ fs after, Action.apply fs (.edit after) = after := fun _ _ => rfl
    intro bytes hbytes
    simp only [Action.known, editedHistory, List.cons_append, List.nil_append, Action.collect,
      Action.fingerprinted, hedit, hbefore, hspecs, Suite.fingerprinted, hread, List.append_nil,
      List.mem_cons] at hbytes
    rcases hbytes with rfl | hbytes
    · exact Or.inl rfl
    · exact hknown bytes hbytes
  refine ⟨plain_projectWith hs, fun root _ l c _ hl h => ?_, fun before a after' heq => ?_,
    fun bytes hbytes bytes' hbytes' hsame => ?_⟩
  · rw [eq_of_file_projectWith h] at hl
    exact absurd hl (by decide)
  · rcases before with _ | ⟨first, _ | ⟨second, _ | ⟨third, before⟩⟩⟩ <;>
      simp only [editedHistory, List.cons_append, List.nil_append, List.cons.injEq] at heq
    · rw [← heq.1]
      exact hbase
    · rw [← heq.1, ← heq.2.1, Action.replay, List.foldl_cons, List.foldl_nil, happly]
      exact hleaves
    · rw [← heq.2.2.1]
      exact hbase
    · simp at heq
  · rcases hknown bytes hbytes with rfl | rfl <;> rcases hknown bytes' hbytes' with rfl | rfl
    · rfl
    · exact absurd (congrArg Digest.hex hsame.symm) hex_otherSpec_ne
    · exact absurd (congrArg Digest.hex hsame) hex_otherSpec_ne
    · rfl

theorem admissible_moved {text : Text} {reports : List FileReport}
    (hfirst : movedSuite.generate (projectWith "s") ["s".toList] =
      .ok (reports, withModule (projectWith "s") text)) :
    Admissible (projectWith "s") (movedHistory text ++
      [Action.generate movedSuite ["r".toList]]) := by
  have hspecs : movedSuite.specs (withModule (projectWith "r") text) ["r".toList] =
      .ok [⟨"r".toList, "r/a.carinata".toList⟩] := by cbv
  have hread : (withModule (projectWith "r") text).readText "r/a.carinata".toList =
      .ok movedSpec := by cbv
  refine admissible_edited hfirst (leavesModules_moved text) hspecs fun bytes hbytes => ?_
  rw [Suite.fingerprinted, hread] at hbytes
  exact Or.inl (List.mem_singleton.mp hbytes)

theorem unchanged_is_compiled_moved : ∃ text,
    Admissible (projectWith "s") (movedHistory text ++ [.generate movedSuite ["r".toList]]) ∧
    movedSuite.generate (Action.replay (projectWith "s") (movedHistory text)) ["r".toList] =
      .ok ([⟨"r/a.carinata".toList, .unchanged "out/a.py".toList⟩],
        withModule (projectWith "r") text) ∧
    (withModule (projectWith "r") text).readText "out/a.py".toList = .ok text ∧
    IsModuleOf movedSuite.config.options movedSpec text := by
  obtain ⟨rest, hcompile⟩ := exists_compile_movedSpec
  have hadmissible := admissible_moved (generate_project hcompile)
  have hrun := generate_moved (compile_eq_ok (hcompile [] "/w/s/a.carinata".toList)).1
  obtain ⟨specs, _, content, module, -, rfl, hcontent, hread, hmodule, -⟩ :=
    unchanged_is_compiled hadmissible hrun (k := 0) rfl
  generalize moduleHead movedSpec movedSuite.config.options ++ "/w/s/a.carinata".toList ++ rest =
    text at hadmissible hrun hcontent hread ⊢
  have hspec : (withModule (projectWith "r") text).readText "r/a.carinata".toList =
      .ok movedSpec := by cbv
  have htext : (withModule (projectWith "r") text).readText "out/a.py".toList = .ok text := by cbv
  obtain rfl : movedSpec = content := Except.ok.inj (hspec.symm.trans hcontent)
  obtain rfl : text = module := Except.ok.inj (htext.symm.trans hread)
  exact ⟨text, hadmissible, hrun, htext, hmodule⟩

/-! Another directory has a spec of the same name. The first one was generated before; in a run over
both it is left alone, and then its module is overwritten. -/

/-- The project with a module and the other spec. -/
def withOther (text : Text) : FileSystem :=
  ((withModule (projectWith "s") text).put ["w".toList, "t".toList] .directory).put
    ["w".toList, "t".toList, "a.carinata".toList] (.file (.text otherSpec))

theorem leavesModules_withOther (text : Text) :
    LeavesModules (withModule (projectWith "s") text) (withOther text) := by
  have hs : Path.Proper "s".toList := by decide
  have ht : Path.Proper "t".toList := by decide
  have hfile : Path.Proper "a.carinata".toList := by decide
  have h1 := plain_withModule (plain_projectWith hs) (by cbv) (by cbv) text
  have h2 := h1.put (o := ["w".toList]) (e := .directory) (by cbv) ht (by simp) fun _ => rfl
  refine ⟨h2.put (o := ["w".toList, "t".toList]) (by cbv) hfile (by simp) fun h => ?_,
    fun l c hl h => ?_⟩
  · have hfree : ((withModule (projectWith "s") text).put ["w".toList, "t".toList]
        .directory).get? ["w".toList, "t".toList, "a.carinata".toList] = none := by cbv
    cases hfree.symm.trans h
  · rw [withOther, FileSystem.get?_put_of_ne _ (by rintro rfl; exact absurd hl (by decide))] at h
    rwa [FileSystem.get?_put_of_ne _ (by rintro rfl; exact absurd hl (by decide))] at h

/-- The first spec is left alone. -/
theorem generateOne_withOther {text : Text} (hdigest : Stamp.readDigest? text =
    some (fingerprint movedSpec movedSuite.config.options).hex) :
    movedSuite.generateOne (withOther text) ⟨"s".toList, "s/a.carinata".toList⟩ =
      (.unchanged "out/a.py".toList, withOther text) := by
  have houtput : (SpecFile.mk "s".toList "s/a.carinata".toList).output movedSuite.outputRoot =
      "out/a.py".toList := by cbv
  have hread : (withOther text).readText "s/a.carinata".toList = .ok movedSpec := by cbv
  have hmodule : (withOther text).readText "out/a.py".toList = .ok text := by cbv
  have hcurrent : Suite.isCurrent (withOther text) "out/a.py".toList movedSpec
      movedSuite.config.options = true := isCurrent_iff.mpr ⟨text, hmodule, hdigest⟩
  rw [Suite.generateOne_of_isCurrent rfl hread (houtput.symm ▸ hcurrent), houtput]

theorem specs_withOther (text : Text) :
    movedSuite.specs (withOther text) ["s".toList, "t".toList] =
      .ok [⟨"s".toList, "s/a.carinata".toList⟩, ⟨"t".toList, "t/a.carinata".toList⟩] := by
  cbv

/-- And then its module is overwritten. -/
theorem generate_withOther {text rest : Text} (hdigest : Stamp.readDigest? text =
      some (fingerprint movedSpec movedSuite.config.options).hex)
    (hcompile : ∀ file path : Text, compile ⟨file, otherSpec⟩ path movedSuite.config.options =
      .ok (moduleHead otherSpec movedSuite.config.options ++ path ++ rest)) : ∃ fs',
    movedSuite.generate (withOther text) ["s".toList, "t".toList] =
      .ok ([⟨"s/a.carinata".toList, .unchanged "out/a.py".toList⟩,
        ⟨"t/a.carinata".toList, .generated "out/a.py".toList⟩], fs') ∧
    fs'.readText "out/a.py".toList = .ok (moduleHead otherSpec movedSuite.config.options ++
      "/w/t/a.carinata".toList ++ rest) := by
  have hplain := (leavesModules_withOther text).plain
  have houtput : (SpecFile.mk "t".toList "t/a.carinata".toList).output movedSuite.outputRoot =
      "out/a.py".toList := by cbv
  have hread : (withOther text).readText "t/a.carinata".toList = .ok otherSpec := by cbv
  have hmodule : (withOther text).readText "out/a.py".toList = .ok text := by cbv
  have hplace : FileSystem.absolute ((withOther text).place "t/a.carinata".toList) =
      "/w/t/a.carinata".toList := by cbv
  have hparent : Path.parent? "out/a.py".toList = some "out".toList := by cbv
  have hmake : (withOther text).makeDirectories "out".toList = (withOther text, none) := by cbv
  have hwrite : ∀ text', (withOther text).write "out/a.py".toList (.text text') =
      .ok ((withOther text).put ["w".toList, "out".toList, "a.py".toList]
        (.file (.text text'))) := by
    intro text'; cbv
  have hstale : Suite.isCurrent (withOther text) "out/a.py".toList otherSpec
      movedSuite.config.options = false := by
    rw [Bool.eq_false_iff, ne_eq, isCurrent_iff]
    rintro ⟨text', htext', hother⟩
    obtain rfl : text = text' := Except.ok.inj (hmodule.symm.trans htext')
    exact hex_otherSpec_ne (Option.some.inj (hother.symm.trans hdigest))
  refine ⟨_, ?_, hplain.readText_of_write (hwrite _)⟩
  rw [Suite.generate_of_specs (specs_withOther text), Suite.each_cons,
    generateOne_withOther hdigest, Suite.each_cons, Suite.generateOne_of_written hplain houtput
      hread hstale hplace (hcompile _ _) hparent hmake (hwrite _)]
  rfl

/-- What was left alone need not be there at the end of the run: a later spec was generated to the
same place. -/
theorem unchanged_then_overwritten : ∃ text text' fs',
    Admissible (projectWith "s") (editedHistory (withOther text) ++
      [Action.generate movedSuite ["s".toList, "t".toList]]) ∧
    movedSuite.generate (Action.replay (projectWith "s") (editedHistory (withOther text)))
        ["s".toList, "t".toList] =
      .ok ([⟨"s/a.carinata".toList, .unchanged "out/a.py".toList⟩,
        ⟨"t/a.carinata".toList, .generated "out/a.py".toList⟩], fs') ∧
    (withOther text).readText "out/a.py".toList = .ok text ∧
    fs'.readText "out/a.py".toList = .ok text' ∧ text ≠ text' := by
  obtain ⟨rest, hcompile⟩ := exists_compile_movedSpec
  obtain ⟨rest', hcompile'⟩ := exists_compile_otherSpec
  have hfirst := generate_project hcompile
  have hdigest := (compile_eq_ok (hcompile [] "/w/s/a.carinata".toList)).1
  have hdigest' := (compile_eq_ok (hcompile' [] "/w/t/a.carinata".toList)).1
  generalize moduleHead movedSpec movedSuite.config.options ++ "/w/s/a.carinata".toList ++ rest =
    text at hfirst hdigest
  have hread : (withOther text).readText "s/a.carinata".toList = .ok movedSpec := by cbv
  have hread' : (withOther text).readText "t/a.carinata".toList = .ok otherSpec := by cbv
  have hmodule : (withOther text).readText "out/a.py".toList = .ok text := by cbv
  obtain ⟨fs', hrun, hwritten⟩ := generate_withOther hdigest hcompile'
  refine ⟨text, _, fs', admissible_edited hfirst (leavesModules_withOther text)
    (specs_withOther text) fun bytes hbytes => ?_, hrun, hmodule, hwritten, ?_⟩
  · simp only [Suite.fingerprinted, hread, generateOne_withOther hdigest, hread', List.append_nil,
      List.cons_append, List.nil_append, List.mem_cons, List.not_mem_nil, or_false] at hbytes
    exact hbytes
  · rintro rfl
    exact hex_otherSpec_ne (Option.some.inj (hdigest'.symm.trans hdigest))

end BlockSpec
