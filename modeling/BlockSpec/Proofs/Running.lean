import BlockSpec.CommandLine.Response
import BlockSpec.Proofs.Freshness

/-! # Running modules

After a batch the interpreter is started on the modules of the reports, in their order, until it
cannot be started at all:

    reports     generated a   failed b   unchanged c   generated d
    modules     a.py                     c.py          d.py
    started     a.py                     c.py                         (c.py could not be started)

The specs of one directory are different files and go to different modules, so no module is started
twice, and none belongs to a spec that failed. By then all turns are over, and what was settled in
them is still settled: every module that is started carries the fingerprint of its spec. -/

namespace BlockSpec

/-! ### The loop -/

/-- The modules that the interpreter is started on: all of them, or those up to the first one on
which it cannot be started. -/
def launched (start : Path → Except FileError Execution) : List Path → List Path
  | [] => []
  | m :: rest =>
    match start m with
    | .error _ => [m]
    | .ok _ => m :: launched start rest

/-- What a start writes, if it comes about. -/
def written : Except FileError Execution → Text
  | .error _ => []
  | .ok x => x.output

/-- The interpreter was started on a module, and the module succeeded. -/
def Passes (start : Path → Except FileError Execution) (m : Path) : Prop :=
  ∃ x, start m = .ok x ∧ x.success = true

section Loop

variable {start start' : Path → Except FileError Execution} {ms : List Path}

theorem launched_prefix : launched start ms <+: ms := by
  induction ms with
  | nil => exact List.prefix_rfl
  | cons m rest ih =>
    rw [launched]
    split
    · exact ⟨rest, rfl⟩
    · exact List.prefix_cons_inj m |>.mpr ih

theorem launched_eq_self (h : ∀ m ∈ ms, Passes start m) : launched start ms = ms := by
  induction ms with
  | nil => rfl
  | cons m rest ih =>
    obtain ⟨⟨x, hx, -⟩, hrest⟩ := List.forall_mem_cons.mp h
    simp only [launched, hx, ih hrest]

/-- Only the starts that come about matter. -/
theorem runModules_congr (h : ∀ m ∈ launched start ms, start' m = start m) :
    runModules start' ms = runModules start ms := by
  induction ms with
  | nil => rfl
  | cons m rest ih =>
    rw [launched] at h
    cases hm : start m with
    | error e =>
      have hm' := h m (by rw [hm]; exact List.mem_cons_self)
      simp only [runModules, hm', hm]
    | ok x =>
      rw [hm] at h
      obtain ⟨hm', hrest⟩ := List.forall_mem_cons.mp h
      simp only [runModules, hm', hm, ih hrest]

theorem runModules_output : (runModules start ms).1 =
    (launched start ms).flatMap fun m => written (start m) := by
  induction ms with
  | nil => rfl
  | cons m rest ih =>
    cases hm : start m with
    | error e => simp [runModules, launched, hm, written]
    | ok x => simp [runModules, launched, hm, written, ih]

theorem runModules_eq_ok_true : (runModules start ms).2 = .ok true ↔ ∀ m ∈ ms, Passes start m := by
  induction ms with
  | nil => simp [runModules]
  | cons m rest ih =>
    rw [List.forall_mem_cons, ← ih, Passes]
    cases hm : start m with
    | error e => simp [runModules, hm]
    | ok x => cases hrest : (runModules start rest).2 <;> simp [runModules, hm, hrest, Except.map]

end Loop

/-! ### Specs of one directory -/

namespace SpecFile

open FileSystem

variable {fs : FileSystem} {dir d : Path} {ext : Text} {specs found : List SpecFile}

/-- Names can be read back from the path that they make. -/
theorem foldl_join_inj {names names' : List Text} (hnames : names ≠ [] ∧ ∀ n ∈ names, Path.Proper n)
    (hnames' : names' ≠ [] ∧ ∀ n ∈ names', Path.Proper n)
    (h : names.foldl Path.join dir = names'.foldl Path.join dir) : names = names' := by
  rw [Path.foldl_join_opened hnames.1 hnames.2, Path.foldl_join_opened hnames'.1 hnames'.2] at h
  rw [← Text.pieces_joinWith (fun n hn => (hnames.2 n hn).no_slash) hnames.1,
    List.append_cancel_left h,
    Text.pieces_joinWith (fun n hn => (hnames'.2 n hn).no_slash) hnames'.1]

/-- Entries at different locations have different paths from a directory. -/
theorem nodup_specBelow? (hfs : fs.ProperNames) (l : Location) :
    (fs.entries.filterMap (specBelow? ext dir l)).Nodup := by
  have hnames : ∀ {m e p}, (m, e) ∈ fs.entries → p ∈ specBelow? ext dir l (m, e) → ∃ names,
      m = l ++ names ∧ (names ≠ [] ∧ ∀ n ∈ names, Path.Proper n) ∧
        p = names.foldl Path.join dir := by
    intro m e p hmem hp
    cases e with
    | directory => cases hp
    | link target => cases hp
    | file c =>
      obtain ⟨hp, -⟩ := Option.filter_eq_some_iff.mp hp
      obtain ⟨names, hbelow, rfl⟩ := Option.map_eq_some_iff.mp hp
      obtain ⟨rfl, hne⟩ := append_of_below? hbelow
      exact ⟨names, rfl, ⟨hne, fun n hn => hfs _ _ hmem n (List.mem_append_right _ hn)⟩, rfl⟩
  refine List.pairwise_filterMap.mpr
    ((List.pairwise_map.mp fs.nodup).imp_of_mem fun {x y} hx hy hne p hp q hq heq => hne ?_)
  obtain ⟨names, hlocation, hproper, rfl⟩ := hnames hx hp
  obtain ⟨names', hlocation', hproper', rfl⟩ := hnames hy hq
  rw [hlocation, hlocation', foldl_join_inj hproper hproper' heq]

/-- No file is found twice under a directory. -/
theorem nodup_under (hfs : fs.Plain) (h : under fs ext dir = .ok found) :
    (found.map (·.path)).Nodup := by
  unfold under filesUnder at h
  cases hfind : fs.find false dir with
  | error e => rw [hfind] at h; cases h
  | ok way =>
    rw [hfind] at h
    cases hfs.find_leads hfind with
    | @entry e he =>
      cases e with
      | directory =>
        simp only at h
        rw [filter_collected (fun _ _ => rfl)] at h
        obtain rfl := Except.ok.inj h
        rw [List.map_map]
        exact (List.map_id _).symm ▸ nodup_specBelow? hfs.names _
      | file c =>
        obtain rfl := Except.ok.inj h
        rw [List.map_map]
        exact (List.map_id _).symm ▸ (List.nodup_singleton dir).filter _
      | link target => exact absurd he (hfs.no_links _ _)
    | free _ _ _ _ => cases h

theorem nodup_discover (hfs : fs.Plain) (h : discover fs [d] ext = .ok specs) :
    (specs.map (·.path)).Nodup := by
  obtain ⟨groups, hgroups, rfl⟩ := exists_of_map_eq_ok h
  cases hunder : under fs ext d with
  | error why => simp [hunder] at hgroups
  | ok found =>
    obtain rfl : groups = [found] := by simpa [hunder] using hgroups.symm
    rw [List.flatten_singleton]
    exact ((List.mergeSort_perm found _).map _).nodup_iff.mpr (nodup_under hfs hunder)

/-- The specs of one directory have a module each. -/
theorem nodup_outputs (hfs : fs.Plain) (h : discover fs [d] ext = .ok specs) (root : Path) :
    (specs.map fun spec => (spec.output root).components).Nodup := by
  have hroot : ∀ c ∈ specs, c.root = d := fun c hc =>
    List.mem_singleton.mp (of_mem_discover h hc).1
  have hpaths := List.pairwise_map.mp (nodup_discover hfs h)
  refine List.pairwise_map.mpr (hpaths.imp_of_mem fun {a b} ha hb hne heq => hne ?_)
  obtain ⟨names, stem, hroute⟩ := exists_route hfs.names h ha
  obtain ⟨names', stem', hroute'⟩ := exists_route hfs.names h hb
  exact path_of_relative hfs.names h ha hb ((hroot a ha).trans (hroot b hb).symm)
    (hroute.relative_of_components hroute' heq)

end SpecFile

/-! ### What is run -/

/-- The modules that are run are those of the batch that did not fail: in the order of the specs,
none twice, and each with the fingerprint of its spec in its first line. -/
structure RunsCurrent (s : Suite) (fs : FileSystem) (specs : List SpecFile)
    (reports : List FileReport) (ran : List Path) : Prop where
  in_order : ran.Sublist (specs.map (·.output s.outputRoot))
  once : (ran.map Path.components).Nodup
  current : ∀ m ∈ ran, ∃ spec ∈ specs, m = spec.output s.outputRoot ∧
    (⟨spec.path, .generated m⟩ ∈ reports ∨ ⟨spec.path, .unchanged m⟩ ∈ reports) ∧
    ∃ content text, fs.readText spec.path = .ok content ∧ fs.readText m = .ok text ∧
      Stamp.readDigest? text = some (fingerprint content s.config.options).hex
  not_failed : ∀ spec ∈ specs, ∀ why, ⟨spec.path, .failed why⟩ ∈ reports →
    spec.output s.outputRoot ∉ ran

variable {s : Suite} {fs fs' : FileSystem} {specs : List SpecFile} {reports : List FileReport}

/-- The module of a settled spec is its own, and it is stamped. -/
theorem Settled.of_output? {spec : SpecFile} {r : FileReport} {m : Path} (hfs : fs.Plain)
    (h : Settled s fs spec r.outcome) (hm : r.output? = some m) :
    m = spec.output s.outputRoot ∧ (r.outcome = .generated m ∨ r.outcome = .unchanged m) ∧
      Stamped s fs spec := by
  obtain ⟨path, outcome⟩ := r
  cases h with
  | generated hfresh =>
    obtain rfl := Option.some.inj hm
    exact ⟨rfl, .inl rfl, hfresh.stamped hfs⟩
  | unchanged hstamped =>
    obtain rfl := Option.some.inj hm
    exact ⟨rfl, .inr rfl, hstamped⟩
  | failed => cases hm

/-- A report is that of a spec. -/
theorem exists_of_mem_forall₂ {α β : Type} {R : α → β → Prop} {l : List α} {m : List β}
    (h : List.Forall₂ R l m) {b : β} (hb : b ∈ m) : ∃ a ∈ l, R a b := by
  induction h with
  | nil => cases hb
  | @cons a b' l m hab _ ih =>
    rcases List.mem_cons.mp hb with rfl | hb
    · exact ⟨a, List.mem_cons_self, hab⟩
    · obtain ⟨a', ha', h⟩ := ih hb
      exact ⟨a', List.mem_cons_of_mem _ ha', h⟩

/-- The modules of the reports are some of those of the specs. -/
theorem outputs_sublist (hfs : fs.Plain)
    (h : List.Forall₂ (fun spec r => r.spec = spec.path ∧ Settled s fs spec r.outcome)
      specs reports) :
    (reports.filterMap (·.output?)).Sublist (specs.map (·.output s.outputRoot)) := by
  induction h with
  | nil => exact List.Sublist.refl []
  | @cons spec r specs reports hr _ ih =>
    cases hout : r.output? with
    | none =>
      rw [List.filterMap_cons_none hout]
      exact ih.cons _
    | some m =>
      rw [List.filterMap_cons_some hout, (hr.2.of_output? hfs hout).1]
      exact ih.cons_cons _

theorem map_spec_eq (h : List.Forall₂ (fun spec r => r.spec = spec.path) specs reports) :
    reports.map (·.spec) = specs.map (·.path) := by
  induction h with
  | nil => rfl
  | cons hr _ ih => rw [List.map_cons, List.map_cons, ih, hr]

/-- What is run after a batch in which every spec was settled, if the specs are different files with
different modules. -/
theorem runsCurrent_of_settled (hfs : fs.Plain) (hpaths : (specs.map (·.path)).Nodup)
    (houtputs : (specs.map fun spec => (spec.output s.outputRoot).components).Nodup)
    (h : List.Forall₂ (fun spec r => r.spec = spec.path ∧ Settled s fs spec r.outcome)
      specs reports) {ran : List Path} (hran : ran <+: reports.filterMap (·.output?)) :
    RunsCurrent s fs specs reports ran := by
  have horder : ran.Sublist (specs.map (·.output s.outputRoot)) :=
    hran.sublist.trans (outputs_sublist hfs h)
  have hcurrent : ∀ m ∈ ran, ∃ spec ∈ specs, m = spec.output s.outputRoot ∧
      (⟨spec.path, .generated m⟩ ∈ reports ∨ ⟨spec.path, .unchanged m⟩ ∈ reports) ∧
      Stamped s fs spec := by
    intro m hm
    obtain ⟨r, hr, hout⟩ := List.mem_filterMap.mp (hran.subset hm)
    obtain ⟨spec, hspec, hpath, hsettled⟩ := exists_of_mem_forall₂ h hr
    obtain ⟨rfl, houtcome, hstamped⟩ := hsettled.of_output? hfs hout
    obtain ⟨path, outcome⟩ := r
    obtain rfl : path = spec.path := hpath
    refine ⟨spec, hspec, rfl, ?_, hstamped⟩
    rcases houtcome with rfl | rfl
    · exact .inl hr
    · exact .inr hr
  refine ⟨horder, ?_, fun m hm => ?_, fun spec hspec why hfailed hmem => ?_⟩
  · have hmap := horder.map Path.components
    rw [List.map_map] at hmap
    exact houtputs.sublist hmap
  · obtain ⟨spec, hspec, rfl, hreport, content, hcontent, hisCurrent⟩ := hcurrent m hm
    obtain ⟨text, hread, hdigest⟩ := isCurrent_iff.mp hisCurrent
    exact ⟨spec, hspec, rfl, hreport, content, text, hcontent, hread, hdigest⟩
  · obtain ⟨spec', hspec', heq, hreport, -⟩ := hcurrent _ hmem
    obtain rfl : spec = spec' :=
      List.inj_on_of_nodup_map houtputs hspec hspec' (congrArg Path.components heq)
    -- a spec has one report only
    have hspecs : (reports.map (·.spec)).Nodup := by
      rw [map_spec_eq (h.imp fun _ _ hr => hr.1)]
      exact hpaths
    have honce : ∀ r ∈ reports, r.spec = spec.path → r = ⟨spec.path, .failed why⟩ :=
      fun r hr hpath => List.inj_on_of_nodup_map hspecs hr hfailed hpath
    rcases hreport with hreport | hreport
    · cases honce _ hreport rfl
    · cases honce _ hreport rfl

/-- Where no spec failed, every report has a module. -/
theorem exists_output? (h : List.Forall₂ (fun spec r => r.spec = spec.path ∧
      Settled s fs spec r.outcome) specs reports) (hok : ∀ r ∈ reports, r.isFailure = false)
    {r : FileReport} (hr : r ∈ reports) : ∃ m, r.output? = some m := by
  obtain ⟨spec, -, -, hsettled⟩ := exists_of_mem_forall₂ h hr
  have hfine := hok r hr
  obtain ⟨path, outcome⟩ := r
  cases hsettled with
  | generated => exact ⟨_, rfl⟩
  | unchanged => exact ⟨_, rfl⟩
  | failed => cases hfine

/-- The exit code of a run says whether no spec failed and every module passed. -/
theorem exitCode_ofRun {start : Path → Except FileError Execution} {interpreter : Text}
    {colors : Bool} : (Response.ofRun start interpreter colors reports).exitCode = 0 ↔
      (∀ r ∈ reports, r.isFailure = false) ∧
        ∀ m ∈ reports.filterMap (·.output?), Passes start m := by
  have hbatch : (Response.ofBatch colors reports).exitCode = 0 ↔
      ∀ r ∈ reports, r.isFailure = false := by
    simp [Response.ofBatch, Response.codeOf]
  rw [← runModules_eq_ok_true, ← hbatch, Response.ofRun]
  split <;> rename_i hrun
  · rename_i passed
    rw [hrun]
    cases passed <;> simp
  · rw [hrun]
    simp

theorem output_ofRun {start : Path → Except FileError Execution} {interpreter : Text}
    {colors : Bool} : (Response.ofRun start interpreter colors reports).output =
      Report.batch colors reports ++
        (launched start (reports.filterMap (·.output?))).flatMap fun m => written (start m) := by
  rw [← runModules_output, Response.ofRun]
  split <;> rename_i hrun <;> rw [hrun] <;> rfl

/-- Running a batch of one directory starts the interpreter on modules of this batch only, each of
them current, and succeeds just if no spec failed and every module was started and succeeded. What
the interpreter would do with other modules does not matter, and without a batch nothing is
started. -/
theorem run_starts_current_modules (launch : Launch) (a : SuiteArguments) (force : Bool)
    (temporary : Path) (c : Config) {d : Path} (hfs : fs.Plain) (hdirs : a.directories = [d])
    (hext : c.extension ≠ Path.moduleExtension)
    (hs : s = { config := a.override c, force, temporary }) :
    (∀ why, s.generate fs [d] = .error why → ∃ response, response.exitCode ≠ 0 ∧
      ∀ launch' : Launch,
        (Command.run a force).perform launch' temporary fs c = (response, fs)) ∧
    ∀ reports fs', s.generate fs [d] = .ok (reports, fs') → ∃ specs ran response,
      s.specs fs [d] = .ok specs ∧ reports.map (·.spec) = specs.map (·.path) ∧
      (Command.run a force).perform launch temporary fs c = (response, fs') ∧
      ran = launched (launch fs' c.interpreter) (reports.filterMap (·.output?)) ∧
      (∀ launch' : Launch,
        (∀ m ∈ ran, launch' fs' c.interpreter m = launch fs' c.interpreter m) →
          (Command.run a force).perform launch' temporary fs c = (response, fs')) ∧
      response.output = Report.batch (a.override c).useColors reports ++
        ran.flatMap (fun m => written (launch fs' c.interpreter m)) ∧
      RunsCurrent s fs' specs reports ran ∧
      (response.exitCode = 0 ↔ (∀ r ∈ reports, r.isFailure = false) ∧
        ∀ r ∈ reports, ∃ m ∈ ran, r.output? = some m ∧ Passes (launch fs' c.interpreter) m) := by
  subst hs
  refine ⟨fun why hwhy => ⟨.failure why, by simp [Response.failure], fun launch' => ?_⟩,
    fun reports fs' hrun => ?_⟩
  · simp only [Command.perform, hdirs, hwhy, Response.afterBatch]
  obtain ⟨specs, hspecs, -, -, hfs', hsettled⟩ := Suite.settled_of_generate hfs hext hrun
  have hperform : ∀ launch' : Launch, (Command.run a force).perform launch' temporary fs c =
      (Response.ofRun (launch' fs' c.interpreter) c.interpreter (a.override c).useColors reports,
        fs') := by
    intro launch'
    simp only [Command.perform, hdirs, hrun, Response.afterBatch]
    rfl
  refine ⟨specs, _, _, hspecs, map_spec_eq (hsettled.imp fun _ _ hr => hr.1), hperform launch, rfl,
    fun launch' hsame => ?_, output_ofRun, ?_, ?_⟩
  · rw [hperform launch']
    simp only [Response.ofRun, runModules_congr hsame]
  · exact runsCurrent_of_settled hfs' (SpecFile.nodup_discover hfs hspecs)
      (SpecFile.nodup_outputs hfs hspecs _) hsettled launched_prefix
  · rw [exitCode_ofRun]
    refine and_congr_right fun hok => ⟨fun hpass r hr => ?_, fun hpass m hm => ?_⟩
    · obtain ⟨m, hout⟩ := exists_output? hsettled hok hr
      have hm : m ∈ reports.filterMap (·.output?) := List.mem_filterMap.mpr ⟨r, hr, hout⟩
      exact ⟨m, (launched_eq_self hpass).symm ▸ hm, hout, hpass m hm⟩
    · obtain ⟨r, hr, hout⟩ := List.mem_filterMap.mp hm
      obtain ⟨m', -, hout', hpass⟩ := hpass r hr
      obtain rfl : m' = m := Option.some.inj (hout'.symm.trans hout)
      exact hpass

/-- An interpreter that writes out what it is started on. -/
def printing : Launch := fun fs _ m => .ok (Program.cat.run fs m)

/-- A project with a spec that cannot be read, an old module of it, and another spec. -/
def mixedProject : FileSystem where
  entries := [(["w".toList], .directory), (["w".toList, "s".toList], .directory),
    (["w".toList, "out".toList], .directory),
    (["w".toList, "out".toList, "a.py".toList], .file (.text "old\n".toList)),
    (["w".toList, "s".toList, "a.carinata".toList], .file (.bytes [255])),
    (["w".toList, "s".toList, "b.carinata".toList], .file (.text movedSpec))]
  workingDirectory := ["w".toList]
  nodup := by decide

theorem plain_mixedProject : mixedProject.Plain := FileSystem.plain_of_entries (by decide)

theorem generate_mixedProject {rest : Text} (hcompile : ∀ file path : Text,
    compile ⟨file, movedSpec⟩ path movedSuite.config.options =
      .ok (moduleHead movedSpec movedSuite.config.options ++ path ++ rest)) :
    movedSuite.generate mixedProject ["s".toList] =
      .ok ([⟨"s/a.carinata".toList, .failed (fileFault "s/a.carinata".toList .notText)⟩,
          ⟨"s/b.carinata".toList, .generated "out/b.py".toList⟩],
        mixedProject.put ["w".toList, "out".toList, "b.py".toList]
          (.file (.text (moduleHead movedSpec movedSuite.config.options ++
            "/w/s/b.carinata".toList ++ rest)))) := by
  have hspecs : movedSuite.specs mixedProject ["s".toList] =
      .ok [⟨"s".toList, "s/a.carinata".toList⟩, ⟨"s".toList, "s/b.carinata".toList⟩] := by cbv
  have hunread : mixedProject.readText "s/a.carinata".toList = .error .notText := by cbv
  have hread : mixedProject.readText "s/b.carinata".toList = .ok movedSpec := by cbv
  have houtput : (SpecFile.mk "s".toList "s/b.carinata".toList).output movedSuite.outputRoot =
      "out/b.py".toList := by cbv
  have habsent : mixedProject.readText "out/b.py".toList = .error .noEntry := by cbv
  have hplace : FileSystem.absolute (mixedProject.place "s/b.carinata".toList) =
      "/w/s/b.carinata".toList := by cbv
  have hparent : Path.parent? "out/b.py".toList = some "out".toList := by cbv
  have hmake : mixedProject.makeDirectories "out".toList = (mixedProject, none) := by cbv
  have hwrite : ∀ text, mixedProject.write "out/b.py".toList (.text text) =
      .ok (mixedProject.put ["w".toList, "out".toList, "b.py".toList] (.file (.text text))) := by
    intro text; cbv
  have hfirst : movedSuite.generateOne mixedProject ⟨"s".toList, "s/a.carinata".toList⟩ =
      (.failed (fileFault "s/a.carinata".toList .notText), mixedProject) :=
    Suite.generateOneUnder_of_unread (d := .nothing) hunread
  rw [Suite.generate_of_specs hspecs, Suite.each_cons, hfirst, Suite.each_cons,
    Suite.generateOne_of_written plain_mixedProject houtput hread
      (Suite.isCurrentUnder_of_unread (d := .nothing) habsent _ _) hplace (hcompile _ _) hparent hmake
      (hwrite _)]
  rfl

/-- The first spec of the batch is no text. The module of the second one is run, the old module of
the first one is not, and the run does not succeed. -/
theorem run_starts_current_modules_mixed : ∃ fs' specs reports response,
    (Command.run ⟨["s".toList], none, none, false⟩ false).perform printing "/tmp".toList
      mixedProject movedSuite.config = (response, fs') ∧
    mixedProject.readText "out/a.py".toList = .ok "old\n".toList ∧
    RunsCurrent movedSuite fs' specs reports ["out/b.py".toList] ∧ response.exitCode ≠ 0 := by
  obtain ⟨rest, hcompile⟩ := exists_compile_movedSpec
  obtain ⟨-, hran⟩ := run_starts_current_modules printing ⟨["s".toList], none, none, false⟩ false
    "/tmp".toList movedSuite.config plain_mixedProject rfl (by decide) rfl
  obtain ⟨specs, ran, response, -, -, hperform, rfl, -, -, hcurrent, hexit⟩ :=
    hran _ _ (generate_mixedProject hcompile)
  refine ⟨_, specs, _, response, hperform, by cbv, hcurrent, fun hzero => ?_⟩
  exact absurd ((hexit.mp hzero).1 _ List.mem_cons_self) (by decide)

end BlockSpec
