import BlockSpec.Proofs.Skipping

/-! # What a batch leaves alone

Working on a batch of specs changes no file that its reports do not name, and no spec:

    generate   files change only where a spec is reported generated
    clean      files go only where a module is reported removed
    check      nothing changes

A spec that fails keeps to itself: the files are as they were before its turn, and the others still
get their turns and their reports. All this is so whatever single operations are denied, at the turn
of one spec or another. -/

namespace BlockSpec

namespace FileSystem

variable {fs fs' : FileSystem} {l m : Location} {c : Content}

/-- What is stored in the file at a location, if there is one. -/
def content? (fs : FileSystem) (l : Location) : Option Content :=
  match fs.get? l with
  | some (.file c) => some c
  | _ => none

theorem content?_eq_some_iff : fs.content? l = some c ↔ fs.get? l = some (.file c) := by
  unfold content?
  split
  · rename_i c' hget
    simp [hget]
  · rename_i hnone
    simp only [reduceCtorEq, false_iff]
    exact hnone c

theorem content?_congr (h : fs'.get? l = fs.get? l) : fs'.content? l = fs.content? l := by
  rw [content?, content?, h]

theorem content?_put_of_ne (fs : FileSystem) (h : m ≠ l) (e : Entry) :
    (fs.put l e).content? m = fs.content? m := content?_congr (get?_put_of_ne fs h e)

theorem content?_erase_of_ne (fs : FileSystem) (h : m ≠ l) :
    (fs.erase l).content? m = fs.content? m := content?_congr (get?_erase_of_ne fs h)

/-- Directories hold no content. -/
theorem Extends.content?_eq (h : fs.Extends fs') (l : Location) :
    fs'.content? l = fs.content? l := by
  refine Option.ext fun c => ?_
  rw [content?_eq_some_iff, content?_eq_some_iff]
  exact ⟨h.files l c, h.keeps l _⟩

end FileSystem

variable {s : Suite} {d : Denials} {fs fs' fs'' : FileSystem} {spec : SpecFile}
  {specs : List SpecFile} {outcome : Outcome} {named : Outcome → Option Path}
  {reports reports' : List FileReport}

/-! ### One turn -/

namespace Outcome

/-- The module that was generated. -/
def generated? : Outcome → Option Path
  | generated p => some p
  | _ => none

/-- The module that was removed. -/
def removed? : Outcome → Option Path
  | removed p => some p
  | _ => none

end Outcome

/-- The sources are spared, and a file that is not as it was is named in a report. -/
structure Confined (named : Outcome → Option Path) (fs : FileSystem) (reports : List FileReport)
    (fs' : FileSystem) : Prop where
  spares : fs.Spares fs'
  changed : ∀ l, fs'.content? l ≠ fs.content? l →
    ∃ r ∈ reports, ∃ p, named r.outcome = some p ∧ fs.place p = l

theorem Turn.confined (hfs : fs.Plain)
    (hout : Path.IsOutput s.outputRoot (spec.output s.outputRoot))
    (h : Turn s d fs spec outcome fs') :
    Confined Outcome.generated? fs [⟨spec.path, outcome⟩] fs' := by
  refine ⟨h.spares hfs hout, fun l hl => ?_⟩
  cases h with
  | refused | current => exact absurd rfl hl
  | blocked => exact absurd ((hfs.extends_makeDirectories d _).content?_eq l) hl
  | @written text made _ hcompile hwrite =>
    have hext := hfs.extends_makeDirectories d made
    obtain ⟨rfl, -⟩ := hext.plain.write_eq hwrite
    rw [FileSystem.place_congr hext.workingDirectory] at hl
    refine ⟨_, List.mem_singleton_self _, _, rfl, ?_⟩
    by_contra hne
    rw [FileSystem.content?_put_of_ne _ (Ne.symm hne)] at hl
    exact hl (hext.content?_eq l)

theorem Removal.confined (hfs : fs.Plain)
    (hout : Path.IsOutput s.outputRoot (spec.output s.outputRoot))
    (h : Removal s fs spec outcome fs') :
    Confined Outcome.removed? fs [⟨spec.path, outcome⟩] fs' := by
  refine ⟨h.spares hfs hout, fun l hl => ?_⟩
  cases h with
  | absent | failed => exact absurd rfl hl
  | removed hremove =>
    obtain ⟨rfl, -⟩ := hfs.removeFile_eq hremove
    refine ⟨_, List.mem_singleton_self _, _, rfl, ?_⟩
    by_contra hne
    exact hl (FileSystem.content?_erase_of_ne fs (Ne.symm hne))

/-- Files only go when modules are removed. -/
theorem Removal.content?_eq_or (hfs : fs.Plain) (h : Removal s fs spec outcome fs')
    (l : Location) : fs'.content? l = fs.content? l ∨ fs'.content? l = none := by
  cases h with
  | absent | failed => exact Or.inl rfl
  | removed hremove =>
    obtain ⟨rfl, -, hne⟩ := hfs.removeFile_eq hremove
    by_cases hl : l = fs.place (spec.output s.outputRoot)
    · right
      rw [hl, FileSystem.content?, FileSystem.get?_erase_self fs hne]
    · exact Or.inl (FileSystem.content?_erase_of_ne fs hl)

/-- A spec that fails leaves every file as it was. -/
theorem Turn.content?_of_failed (hfs : fs.Plain) {why : Diagnostic}
    (h : Turn s d fs spec (.failed why) fs') (l : Location) : fs'.content? l = fs.content? l := by
  cases h with
  | refused => rfl
  | blocked => exact (hfs.extends_makeDirectories d _).content?_eq l

/-- A spec that cannot be read or compiled changes nothing. It fails, unless nobody asks. -/
theorem Turn.of_refused {why : Diagnostic}
    (hwhy : Suite.compileFileUnder d fs spec.path s.config.options = .error why)
    (h : Turn s d fs spec outcome fs') : fs' = fs ∧ (outcome = .failed why ∨
      s.force = false ∧ outcome = .unchanged (spec.output s.outputRoot)) := by
  cases h with
  | refused hrefused =>
    rw [hwhy] at hrefused
    exact ⟨rfl, Or.inl (by rw [Except.error.inj hrefused])⟩
  | current hforce => exact ⟨rfl, Or.inr ⟨hforce, rfl⟩⟩
  | blocked hcompile => rw [hwhy] at hcompile; cases hcompile
  | written hcompile => rw [hwhy] at hcompile; cases hcompile

/-! ### Whole runs -/

namespace Confined

theorem nil (hfs : fs.Plain) : Confined named fs [] fs :=
  ⟨hfs.spares_refl, fun _ h => absurd rfl h⟩

theorem append (h : Confined named fs reports fs') (h' : Confined named fs' reports' fs'') :
    Confined named fs (reports ++ reports') fs'' := by
  refine ⟨h.spares.trans h'.spares, fun l hl => ?_⟩
  by_cases hmid : fs''.content? l = fs'.content? l
  · obtain ⟨r, hr, p, hp, hplace⟩ := h.changed l fun heq => hl (hmid.trans heq)
    exact ⟨r, List.mem_append_left _ hr, p, hp, hplace⟩
  · obtain ⟨r, hr, p, hp, hplace⟩ := h'.changed l hmid
    rw [h.spares.place_eq] at hplace
    exact ⟨r, List.mem_append_right _ hr, p, hp, hplace⟩

/-- Turns that are confined make a run that is. -/
theorem eachWith {steps : Nat → FileSystem → SpecFile → Outcome × FileSystem}
    (hstep : ∀ k, ∀ fs : FileSystem, ∀ spec ∈ specs, fs.Plain →
      Confined named fs [⟨spec.path, (steps k fs spec).1⟩] (steps k fs spec).2) (hfs : fs.Plain) :
    Confined named fs (Suite.eachWith steps fs specs).1 (Suite.eachWith steps fs specs).2 := by
  induction specs generalizing fs steps with
  | nil => exact nil hfs
  | cons spec rest ih =>
    have hfirst := hstep 0 fs spec List.mem_cons_self hfs
    have hrest := ih (fun k fs a ha => hstep (k + 1) fs a (List.mem_cons_of_mem _ ha))
      hfirst.spares.plain
    rw [Suite.eachWith_cons]
    exact hfirst.append hrest

end Confined

namespace Suite

/-- The files at the turn of the `k`-th spec. -/
def filesAt (s : Suite) (d : Nat → Denials) (fs : FileSystem) (specs : List SpecFile) (k : Nat) :
    FileSystem :=
  (eachWith (fun k => s.generateOneUnder (d k)) fs (specs.take k)).2

end Suite

/-- A run over specs: every spec has its report, in order; every file that is not as it was is named
in a report; only modules are not as they were, and the specs are. -/
structure Isolated (named : Outcome → Option Path) (fs : FileSystem) (specs : List SpecFile)
    (reports : List FileReport) (fs' : FileSystem) : Prop where
  reported : reports.map (·.spec) = specs.map (·.path)
  changed : ∀ l, fs'.content? l ≠ fs.content? l →
    ∃ r ∈ reports, ∃ p, named r.outcome = some p ∧ fs.place p = l
  sources : ∀ l, FileSystem.isModule l = false → fs'.content? l = fs.content? l
  specs_stay : ∀ spec ∈ specs, ∃ c, fs.content? (fs.place spec.path) = some c ∧
    fs'.content? (fs.place spec.path) = some c

theorem Confined.content?_source (h : Confined named fs reports fs') {l : Location}
    (hl : FileSystem.isModule l = false) : fs'.content? l = fs.content? l := by
  refine Option.ext fun c => ?_
  rw [FileSystem.content?_eq_some_iff, FileSystem.content?_eq_some_iff]
  exact ⟨FileSystem.get?_of_sources_eq h.spares.sources.symm hl, h.spares.get? hl⟩

theorem Confined.isolated {dirs : List Path} (hfs : fs.Plain)
    (hext : s.config.extension ≠ Path.moduleExtension) (hspecs : s.specs fs dirs = .ok specs)
    (hreported : reports.map (·.spec) = specs.map (·.path)) (h : Confined named fs reports fs') :
    Isolated named fs specs reports fs' := by
  refine ⟨hreported, h.changed, fun l => h.content?_source, fun spec hspec => ?_⟩
  obtain ⟨c, hget⟩ := SpecFile.get?_place_of_mem_discover hfs hspecs hspec
  obtain ⟨-, hextension, -⟩ := SpecFile.of_mem_discover hspecs hspec
  have hcontent := FileSystem.content?_eq_some_iff.mpr hget
  refine ⟨c, hcontent, ?_⟩
  rw [h.content?_source (fs.isModule_place hextension hext), hcontent]

namespace Suite

variable {dirs : List Path}

theorem isOutput_of_mem_specs (hfs : fs.Plain) (hspecs : s.specs fs dirs = .ok specs) :
    ∀ spec ∈ specs, Path.IsOutput s.outputRoot (spec.output s.outputRoot) :=
  fun _ hspec => SpecFile.isOutput_of_mem_discover hfs.names hspecs hspec _

theorem generate_isolated (hfs : fs.Plain) (hext : s.config.extension ≠ Path.moduleExtension)
    (hspecs : s.specs fs dirs = .ok specs) (d : Nat → Denials) :
    Isolated Outcome.generated? fs specs
      (eachWith (fun k => s.generateOneUnder (d k)) fs specs).1
      (eachWith (fun k => s.generateOneUnder (d k)) fs specs).2 := by
  refine Confined.isolated hfs hext hspecs (map_spec_eachWith _ _ _) (Confined.eachWith ?_ hfs)
  intro k fs₁ spec hspec hplain
  exact (generateOneUnder_turn s (d k) fs₁ spec).confined hplain
    (isOutput_of_mem_specs hfs hspecs spec hspec)

theorem clean_isolated (hfs : fs.Plain) (hext : s.config.extension ≠ Path.moduleExtension)
    (hspecs : s.specs fs dirs = .ok specs) (d : Nat → Denials) :
    Isolated Outcome.removed? fs specs (eachWith (fun k => s.cleanOneUnder (d k)) fs specs).1
      (eachWith (fun k => s.cleanOneUnder (d k)) fs specs).2 := by
  refine Confined.isolated hfs hext hspecs (map_spec_eachWith _ _ _) (Confined.eachWith ?_ hfs)
  intro k fs₁ spec hspec hplain
  exact (cleanOneUnder_removal s (d k) fs₁ spec).confined hplain
    (isOutput_of_mem_specs hfs hspecs spec hspec)

/-- Cleaning only takes files away. -/
theorem clean_content?_eq_or (hfs : fs.Plain) (hspecs : s.specs fs dirs = .ok specs)
    (d : Nat → Denials) (l : Location) :
    (eachWith (fun k => s.cleanOneUnder (d k)) fs specs).2.content? l = fs.content? l ∨
      (eachWith (fun k => s.cleanOneUnder (d k)) fs specs).2.content? l = none := by
  suffices h : (eachWith (fun k => s.cleanOneUnder (d k)) fs specs).2.Plain ∧
      ((eachWith (fun k => s.cleanOneUnder (d k)) fs specs).2.content? l = fs.content? l ∨
        (eachWith (fun k => s.cleanOneUnder (d k)) fs specs).2.content? l = none) from h.2
  refine eachWith_induction (P := fun fs' => fs'.Plain ∧
    (fs'.content? l = fs.content? l ∨ fs'.content? l = none)) ?_ ⟨hfs, Or.inl rfl⟩
  rintro k fs₁ spec hspec ⟨hplain, hfiles⟩
  have hremoval := cleanOneUnder_removal s (d k) fs₁ spec
  refine ⟨(hremoval.spares hplain (isOutput_of_mem_specs hfs hspecs spec hspec)).plain, ?_⟩
  rcases hremoval.content?_eq_or hplain l with h | h
  · rw [h]
    exact hfiles
  · exact Or.inr h

/-- The turn of the `k`-th spec in a run, on plain files. -/
theorem turn_filesAt (hfs : fs.Plain) (hspecs : s.specs fs dirs = .ok specs) (d : Nat → Denials)
    {k : Nat} (hspec : specs[k]? = some spec) : (s.filesAt d fs specs k).Plain ∧ ∃ outcome,
      (eachWith (fun k => s.generateOneUnder (d k)) fs specs).1[k]? = some ⟨spec.path, outcome⟩ ∧
      Turn s (d k) (s.filesAt d fs specs k) spec outcome (s.filesAt d fs specs (k + 1)) := by
  have hout := isOutput_of_mem_specs hfs hspecs
  refine ⟨(spares_generateUnder hfs (fun a ha => hout a (List.mem_of_mem_take ha)) d).plain, _,
    getElem?_eachWith hspec, ?_⟩
  rw [filesAt, filesAt, eachWith_take_succ hspec]
  exact generateOneUnder_turn s (d k) _ spec

end Suite

/-- Whatever is denied at the turn of each spec: when the directories can be searched, every
operation gives every spec its report, and changes only what its reports name, and no spec. Checking
changes nothing, cleaning only takes files away, and a spec that fails leaves every file as it was
at its turn. When they cannot, nothing is done. -/
theorem batch_isolated (hfs : fs.Plain) (hext : s.config.extension ≠ Path.moduleExtension)
    (d : Nat → Denials) (dirs : List Path) :
    (∀ why, s.specs fs dirs = .error why → s.generateUnder d fs dirs = .error why ∧
      s.cleanUnder d fs dirs = .error why ∧ s.checkUnder d fs dirs = .error why) ∧
    ∀ specs, s.specs fs dirs = .ok specs →
      (∃ checks, s.checkUnder d fs dirs = .ok checks ∧
        checks.map (·.spec) = specs.map (·.path) ∧ (Action.check s dirs).apply fs = fs) ∧
      (∃ reports fs', s.generateUnder d fs dirs = .ok (reports, fs') ∧
        Isolated Outcome.generated? fs specs reports fs' ∧
        ∀ k spec, specs[k]? = some spec → ∀ why,
          (reports[k]? = some ⟨spec.path, .failed why⟩ → ∀ l,
            (s.filesAt d fs specs (k + 1)).content? l = (s.filesAt d fs specs k).content? l) ∧
          (Suite.compileFileUnder (d k) (s.filesAt d fs specs k) spec.path s.config.options =
              .error why → s.filesAt d fs specs (k + 1) = s.filesAt d fs specs k ∧
            (reports[k]? = some ⟨spec.path, .failed why⟩ ∨ s.force = false ∧
              reports[k]? = some ⟨spec.path, .unchanged (spec.output s.outputRoot)⟩))) ∧
      (∃ reports fs', s.cleanUnder d fs dirs = .ok (reports, fs') ∧
        Isolated Outcome.removed? fs specs reports fs' ∧
        ∀ l, fs'.content? l = fs.content? l ∨ fs'.content? l = none) := by
  refine ⟨fun why hwhy => ?_, fun specs hspecs => ⟨?_, ?_, ?_⟩⟩
  · rw [Suite.generateUnder, Suite.cleanUnder, Suite.checkUnder, hwhy]
    exact ⟨rfl, rfl, rfl⟩
  · refine ⟨_, by rw [Suite.checkUnder, hspecs]; rfl, ?_, rfl⟩
    exact List.ext_getElem (by simp) fun k _ _ => by simp [Suite.checkOneUnder]
  · refine ⟨_, _, by rw [Suite.generateUnder, hspecs]; rfl,
      Suite.generate_isolated hfs hext hspecs d, fun k spec hspec why => ?_⟩
    obtain ⟨hplain, outcome, hreport, hturn⟩ := Suite.turn_filesAt hfs hspecs d hspec
    rw [hreport]
    refine ⟨fun hfailed => ?_, fun hwhy => ?_⟩
    · rw [(FileReport.mk.inj (Option.some.inj hfailed)).2] at hturn
      exact hturn.content?_of_failed hplain
    · obtain ⟨hfiles, rfl | ⟨hforce, rfl⟩⟩ := hturn.of_refused hwhy
      · exact ⟨hfiles, Or.inl rfl⟩
      · exact ⟨hfiles, Or.inr ⟨hforce, rfl⟩⟩
  · exact ⟨_, _, by rw [Suite.cleanUnder, hspecs]; rfl, Suite.clean_isolated hfs hext hspecs d,
      Suite.clean_content?_eq_or hfs hspecs d⟩

/-! A batch of three specs: the first is no text, and there is an old module of it; the second is
generated; the third compiles, but writing over its old module is denied. -/

/-- A project with a spec that cannot be read, and two old modules. -/
def lockedProject : FileSystem where
  entries := [(["w".toList], .directory), (["w".toList, "s".toList], .directory),
    (["w".toList, "out".toList], .directory),
    (["w".toList, "out".toList, "a.py".toList], .file (.text "old\n".toList)),
    (["w".toList, "out".toList, "c.py".toList], .file (.text "old\n".toList)),
    (["w".toList, "s".toList, "a.carinata".toList], .file (.bytes [255])),
    (["w".toList, "s".toList, "b.carinata".toList], .file (.text movedSpec)),
    (["w".toList, "s".toList, "c.carinata".toList], .file (.text movedSpec))]
  workingDirectory := ["w".toList]
  nodup := by decide

/-- Writing to the module of the third spec is denied. -/
def lockedDenials : Denials :=
  ⟨fun _ o => if o = .write "out/c.py".toList then some .permissionDenied else none⟩

/-- The project after the second spec was generated. -/
def lockedWith (text : Text) : FileSystem :=
  lockedProject.put ["w".toList, "out".toList, "b.py".toList] (.file (.text text))

theorem plain_lockedProject : lockedProject.Plain := FileSystem.plain_of_entries (by decide)

theorem specs_lockedProject : movedSuite.specs lockedProject ["s".toList] =
    .ok [⟨"s".toList, "s/a.carinata".toList⟩, ⟨"s".toList, "s/b.carinata".toList⟩,
      ⟨"s".toList, "s/c.carinata".toList⟩] := by
  cbv

theorem generateOne_locked_first : movedSuite.generateOneUnder lockedDenials lockedProject
    ⟨"s".toList, "s/a.carinata".toList⟩ =
      (.failed (fileFault "s/a.carinata".toList .notText), lockedProject) := by
  have hunread : lockedDenials.readText lockedProject "s/a.carinata".toList = .error .notText := by
    cbv
  exact Suite.generateOneUnder_of_unread hunread

theorem generateOne_locked_second {rest : Text} (hcompile : ∀ file path : Text,
    compile ⟨file, movedSpec⟩ path movedSuite.config.options =
      .ok (moduleHead movedSpec movedSuite.config.options ++ path ++ rest)) :
    movedSuite.generateOneUnder lockedDenials lockedProject
      ⟨"s".toList, "s/b.carinata".toList⟩ = (.generated "out/b.py".toList,
        lockedWith (moduleHead movedSpec movedSuite.config.options ++ "/w/s/b.carinata".toList ++
          rest)) := by
  have hread : lockedDenials.readText lockedProject "s/b.carinata".toList = .ok movedSpec := by cbv
  have houtput : (SpecFile.mk "s".toList "s/b.carinata".toList).output movedSuite.outputRoot =
      "out/b.py".toList := by cbv
  have habsent : lockedDenials.readText lockedProject "out/b.py".toList = .error .noEntry := by cbv
  have hcanonical : lockedDenials.canonical lockedProject "s/b.carinata".toList =
      .ok "/w/s/b.carinata".toList := by cbv
  have hparent : Path.parent? "out/b.py".toList = some "out".toList := by cbv
  have hmake : lockedDenials.makeDirectories lockedProject "out".toList =
      (lockedProject, none) := by cbv
  have hallowed : lockedDenials.error? lockedProject (.write "out/b.py".toList) = none := by decide
  have hwrite : ∀ text, lockedDenials.write lockedProject "out/b.py".toList (.text text) =
      .ok (lockedWith text) := by
    intro text
    rw [Denials.write, Denials.attempt, hallowed]
    cbv
  have hfile : Suite.compileFileUnder lockedDenials lockedProject "s/b.carinata".toList
      movedSuite.config.options = .ok (moduleHead movedSpec movedSuite.config.options ++
        "/w/s/b.carinata".toList ++ rest) := by
    rw [Suite.compileFileUnder_eq hread hcanonical, hcompile]
  rw [Suite.generateOneUnder_of_compiled houtput hread
    (Suite.isCurrentUnder_of_unread habsent _ _) hfile hparent hmake, hwrite]

theorem generateOne_locked_third {text rest : Text} (hcompile : ∀ file path : Text,
    compile ⟨file, movedSpec⟩ path movedSuite.config.options =
      .ok (moduleHead movedSpec movedSuite.config.options ++ path ++ rest)) :
    movedSuite.generateOneUnder lockedDenials (lockedWith text)
      ⟨"s".toList, "s/c.carinata".toList⟩ =
        (.failed (fileFault "out/c.py".toList .permissionDenied), lockedWith text) := by
  have hread : lockedDenials.readText (lockedWith text) "s/c.carinata".toList =
      .ok movedSpec := by cbv
  have houtput : (SpecFile.mk "s".toList "s/c.carinata".toList).output movedSuite.outputRoot =
      "out/c.py".toList := by cbv
  have hold : lockedDenials.readText (lockedWith text) "out/c.py".toList =
      .ok "old\n".toList := by cbv
  have hcanonical : lockedDenials.canonical (lockedWith text) "s/c.carinata".toList =
      .ok "/w/s/c.carinata".toList := by cbv
  have hparent : Path.parent? "out/c.py".toList = some "out".toList := by cbv
  have hmake : lockedDenials.makeDirectories (lockedWith text) "out".toList =
      (lockedWith text, none) := by cbv
  have hdenied : ∀ text', lockedDenials.write (lockedWith text) "out/c.py".toList (.text text') =
      .error .permissionDenied := by
    intro text'; cbv
  have hstale : Suite.isCurrentUnder lockedDenials (lockedWith text) "out/c.py".toList movedSpec
      movedSuite.config.options = false := by
    have hdigest : Stamp.readDigest? "old\n".toList = none := by cbv
    rw [Suite.isCurrentUnder, hold]
    simp only [hdigest]
    rfl
  have hfile : Suite.compileFileUnder lockedDenials (lockedWith text) "s/c.carinata".toList
      movedSuite.config.options = .ok (moduleHead movedSpec movedSuite.config.options ++
        "/w/s/c.carinata".toList ++ rest) := by
    rw [Suite.compileFileUnder_eq hread hcanonical, hcompile]
  rw [Suite.generateOneUnder_of_compiled houtput hread hstale hfile hparent hmake, hdenied]

theorem generate_lockedProject {rest : Text} (hcompile : ∀ file path : Text,
    compile ⟨file, movedSpec⟩ path movedSuite.config.options =
      .ok (moduleHead movedSpec movedSuite.config.options ++ path ++ rest)) :
    movedSuite.generateUnder (fun _ => lockedDenials) lockedProject ["s".toList] =
      .ok ([⟨"s/a.carinata".toList, .failed (fileFault "s/a.carinata".toList .notText)⟩,
          ⟨"s/b.carinata".toList, .generated "out/b.py".toList⟩,
          ⟨"s/c.carinata".toList, .failed (fileFault "out/c.py".toList .permissionDenied)⟩],
        lockedWith (moduleHead movedSpec movedSuite.config.options ++ "/w/s/b.carinata".toList ++
          rest)) := by
  rw [Suite.generateUnder, specs_lockedProject, Except.map, Suite.eachWith_cons,
    generateOne_locked_first, Suite.eachWith_cons, generateOne_locked_second hcompile,
    Suite.eachWith_cons, generateOne_locked_third hcompile]
  rfl

/-- The old modules of the specs that fail are still there. -/
theorem batch_isolated_locked : ∃ fs',
    movedSuite.generateUnder (fun _ => lockedDenials) lockedProject ["s".toList] =
      .ok ([⟨"s/a.carinata".toList, .failed (fileFault "s/a.carinata".toList .notText)⟩,
        ⟨"s/b.carinata".toList, .generated "out/b.py".toList⟩,
        ⟨"s/c.carinata".toList, .failed (fileFault "out/c.py".toList .permissionDenied)⟩], fs') ∧
    fs'.content? ["w".toList, "out".toList, "a.py".toList] = some (.text "old\n".toList) ∧
    fs'.content? ["w".toList, "out".toList, "c.py".toList] = some (.text "old\n".toList) := by
  obtain ⟨rest, hcompile⟩ := exists_compile_movedSpec
  obtain ⟨-, ⟨reports, fs', hgenerate, hisolated, -⟩, -⟩ := (batch_isolated (s := movedSuite)
    plain_lockedProject (by decide) (fun _ => lockedDenials) ["s".toList]).2 _ specs_lockedProject
  have hrun := generate_lockedProject hcompile
  obtain ⟨rfl, rfl⟩ := Prod.mk.inj (Except.ok.inj (hgenerate.symm.trans hrun))
  -- only the place of the second module is named
  have hkept : ∀ l, lockedProject.place "out/b.py".toList ≠ l →
      (lockedWith (moduleHead movedSpec movedSuite.config.options ++ "/w/s/b.carinata".toList ++
        rest)).content? l = lockedProject.content? l := by
    intro l hl
    by_contra hne
    obtain ⟨r, hr, p, hp, hplace⟩ := hisolated.changed l hne
    simp only [List.mem_cons, List.not_mem_nil, or_false] at hr
    rcases hr with rfl | rfl | rfl
    · cases hp
    · obtain rfl := Option.some.inj hp
      exact hl hplace
    · cases hp
  refine ⟨_, hrun, (hkept _ ?_).trans ?_, (hkept _ ?_).trans ?_⟩ <;> decide

end BlockSpec
