import BlockSpec.Proofs.Freshness

/-! # Cleaning undoes generating

Generating writes files where output paths lead, and cleaning takes files away from where output
paths lead. Both go by the paths, on files that the other has left, so what counts is which files
the paths lead to in between:

    generate   a file that is not as it was is one that an output path leads to
    clean      a file goes if an output path leads to it, and only then

Cleaning therefore undoes generating just when no output path leads, in between, to a file that was
there before. That is more than nothing being there at the output paths before: a path that passes
through a missing directory and up again leads nowhere, and when the directory is made, it may lead
to a file. A path without steps up cannot do that. -/

namespace BlockSpec

namespace FileSystem

variable {fs fs' fs'' : FileSystem} {l m : Location} {p q : Path} {c : Content}

/-- A path leads to the file at a location. -/
def FileAt (fs : FileSystem) (p : Path) (l : Location) : Prop :=
  ∃ c, fs.entryAt? p = .ok (l, .file c)

theorem fileAt_iff : fs.FileAt p l ↔ ∃ c, fs.find true p = .ok (.at l (.file c)) := by
  refine exists_congr fun c => ?_
  unfold entryAt?
  cases fs.find true p with
  | error e => simp
  | ok found => cases found <;> simp

theorem FileAt.present (h : fs.FileAt p l) : fs.present p = true := by
  obtain ⟨c, h⟩ := h
  rw [FileSystem.present, h]
  rfl

namespace Plain

theorem place_of_fileAt (hfs : fs.Plain) (h : fs.FileAt p l) :
    l = fs.place p ∧ ∃ c, fs.get? l = some (.file c) := by
  obtain ⟨c, hfind⟩ := fileAt_iff.mp h
  cases hfs.find_leads hfind with
  | entry hget => exact ⟨rfl, c, hget⟩

/-- A path still leads to a file when more is added, as long as directories stay. -/
theorem fileAt_mono (hfs : fs.Plain) (hfs' : fs'.Plain)
    (hwd : fs'.workingDirectory = fs.workingDirectory)
    (hdirs : ∀ m, fs.get? m = some .directory → fs'.get? m = some .directory)
    (h : fs.FileAt p l) (hl : fs'.get? l = some (.file c)) : fs'.FileAt p l := by
  obtain ⟨rfl, -⟩ := hfs.place_of_fileAt h
  obtain ⟨_, hfind⟩ := fileAt_iff.mp h
  exact fileAt_iff.mpr ⟨c, hfs.find_mono hfs' hwd hdirs hfind hl⟩

/-- Without links it does not matter whether the last one is followed. -/
theorem walk_followLast (hfs : fs.Plain) {links : Nat} : ∀ {names : List Text} {origin : Location},
    fs.walk false links origin names = fs.walk true links origin names
  | [], origin => by rw [walk, walk]
  | name :: rest, origin => by rw [hfs.walk_cons, hfs.walk_cons, walk_followLast hfs]

theorem find_followLast (hfs : fs.Plain) (p : Path) : fs.find false p = fs.find true p := by
  unfold find
  rw [hfs.walk_followLast]

end Plain

/-! ### Files taken away -/

/-- The files that some paths led to are gone, and nothing else happened. -/
structure Stripped (fs : FileSystem) (paths : List Path) (fs' : FileSystem) : Prop where
  workingDirectory : fs'.workingDirectory = fs.workingDirectory
  plain : fs'.Plain
  gone : ∀ p ∈ paths, ∀ l, fs.FileAt p l → fs'.get? l = none
  kept : ∀ l, (∀ p ∈ paths, ¬ fs.FileAt p l) → fs'.get? l = fs.get? l

namespace Stripped

variable {paths paths' : List Path}

theorem nil (hfs : fs.Plain) : fs.Stripped [] fs :=
  ⟨rfl, hfs, fun _ hp => absurd hp List.not_mem_nil, fun _ _ => rfl⟩

/-- What stands at a location afterwards stood there before. -/
theorem get?_of_eq_some (h : fs.Stripped paths fs') {e : Entry} (hl : fs'.get? l = some e) :
    (∀ p ∈ paths, ¬ fs.FileAt p l) ∧ fs.get? l = some e := by
  have hnone : ∀ p ∈ paths, ¬ fs.FileAt p l := by
    intro p hp hat
    rw [h.gone p hp l hat] at hl
    cases hl
  exact ⟨hnone, by rw [← h.kept l hnone, hl]⟩

/-- Directories stay. -/
theorem directory (hfs : fs.Plain) (h : fs.Stripped paths fs')
    (hl : fs.get? l = some .directory) : fs'.get? l = some .directory := by
  rw [h.kept l fun p _ hat => ?_, hl]
  obtain ⟨-, c, hget⟩ := hfs.place_of_fileAt hat
  rw [hl] at hget
  cases hget

/-- A path leads to a file afterwards if it did before and the file is not gone. -/
theorem fileAt_iff (hfs : fs.Plain) (h : fs.Stripped paths fs') :
    fs'.FileAt q l ↔ fs.FileAt q l ∧ ∀ p ∈ paths, ¬ fs.FileAt p l := by
  constructor
  · intro hat
    obtain ⟨-, c, hget⟩ := h.plain.place_of_fileAt hat
    obtain ⟨hnone, hbefore⟩ := h.get?_of_eq_some hget
    refine ⟨h.plain.fileAt_mono hfs h.workingDirectory.symm (fun m hm => ?_) hat hbefore, hnone⟩
    exact (h.get?_of_eq_some hm).2
  · rintro ⟨hat, hnone⟩
    obtain ⟨-, c, hget⟩ := hfs.place_of_fileAt hat
    exact hfs.fileAt_mono h.plain h.workingDirectory (fun m => h.directory hfs) hat
      ((h.kept l hnone).trans hget)

theorem append (hfs : fs.Plain) (h : fs.Stripped paths fs') (h' : fs'.Stripped paths' fs'') :
    fs.Stripped (paths ++ paths') fs'' := by
  refine ⟨h'.workingDirectory.trans h.workingDirectory, h'.plain, fun p hp l hat => ?_,
    fun l hnone => ?_⟩
  · by_cases hgone : ∀ q ∈ paths, ¬ fs.FileAt q l
    · rcases List.mem_append.mp hp with hp | hp
      · exact absurd hat (hgone p hp)
      · exact h'.gone p hp l ((h.fileAt_iff hfs).mpr ⟨hat, hgone⟩)
    · push Not at hgone
      obtain ⟨q, hq, hatq⟩ := hgone
      have hnone : ∀ p ∈ paths', ¬ fs'.FileAt p l := fun p _ hat' =>
        ((h.fileAt_iff hfs).mp hat').2 q hq hatq
      rw [h'.kept l hnone, h.gone q hq l hatq]
  · obtain ⟨hfirst, hrest⟩ := List.forall_mem_append.mp hnone
    have hnone' : ∀ p ∈ paths', ¬ fs'.FileAt p l := fun p hp hat =>
      hrest p hp ((h.fileAt_iff hfs).mp hat).1
    rw [h'.kept l hnone', h.kept l hfirst]

end Stripped

namespace Plain

/-- What is removed is a file that the path leads to. -/
theorem fileAt_of_removeFile (hfs : fs.Plain) (h : fs.removeFile p = .ok fs') :
    fs.FileAt p (fs.place p) := by
  refine FileSystem.fileAt_iff.mpr ?_
  unfold removeFile at h
  rw [hfs.find_followLast] at h
  cases hfind : fs.find true p with
  | error e => rw [hfind] at h; cases h
  | ok found =>
    rw [hfind] at h
    cases hfs.find_leads hfind with
    | @entry e he =>
      cases e with
      | directory => cases h
      | file c => exact ⟨c, rfl⟩
      | link target => exact absurd he (hfs.no_links _ _)
    | free => cases h

theorem removeFile_of_fileAt (hfs : fs.Plain) (h : fs.FileAt p l) :
    fs.removeFile p = .ok (fs.erase l) := by
  obtain ⟨c, hfind⟩ := FileSystem.fileAt_iff.mp h
  rw [removeFile, hfs.find_followLast, hfind]

theorem stripped_removeFile (hfs : fs.Plain) (h : fs.removeFile p = .ok fs') :
    fs.Stripped [p] fs' := by
  have hat := hfs.fileAt_of_removeFile h
  obtain ⟨rfl, hplain, hne⟩ := hfs.removeFile_eq h
  refine ⟨rfl, hplain, fun q hq l hatq => ?_, fun l hnone => ?_⟩
  · obtain rfl := List.mem_singleton.mp hq
    rw [(hfs.place_of_fileAt hatq).1, get?_erase_self fs hne]
  · refine get?_erase_of_ne fs ?_
    rintro rfl
    exact hnone p (List.mem_singleton_self p) hat

/-! ### Paths without steps up -/

theorem exists_append_of_foldl_stepTo : ∀ {names : List Text} (origin : Location),
    ['.', '.'] ∉ names → ∃ more, names.foldl stepTo origin = origin ++ more
  | [], origin, _ => ⟨[], (List.append_nil origin).symm⟩
  | name :: rest, origin, hup => by
    obtain ⟨hname, hrest⟩ := List.ne_and_not_mem_of_not_mem_cons hup
    obtain ⟨more, hmore⟩ := exists_append_of_foldl_stepTo (stepTo origin name) hrest
    rw [List.foldl_cons, hmore, stepTo, if_neg (Ne.symm hname)]
    split
    · exact ⟨more, rfl⟩
    · exact ⟨name :: more, by simp⟩

/-- Whoever never steps up passes through nothing but what the end stands in. So the way to a file
was there before more was added, if the file was. -/
theorem walk_back (hfs : fs.Plain) (hfs' : fs'.Plain) (hl : fs.get? l = some (.file c))
    (hl' : fs'.get? l ≠ some .directory) {links : Nat} {e : Entry} :
    ∀ {names : List Text} {origin : Location}, ['.', '.'] ∉ names →
      names.foldl stepTo origin = l → fs'.walk true links origin names = .ok (.at l e) →
      fs.walk true links origin names = .ok (.at l (.file c)) := by
  intro names
  induction names with
  | nil =>
    intro origin _ hend h
    obtain rfl : origin = l := hend
    exact walk_nil _ _ hl
  | cons name rest ih =>
    intro origin hup hend h
    obtain ⟨hdir', hlength, h⟩ := hfs'.walk_cons_eq_ok_iff.mp h
    refine hfs.walk_cons_eq_ok_iff.mpr ⟨?_, hlength, ih (List.not_mem_of_not_mem_cons hup) hend h⟩
    -- the way is still open at `origin`, so it is not the end, and the end is below
    obtain ⟨more, hmore⟩ := exists_append_of_foldl_stepTo origin hup
    rw [hend] at hmore
    refine hfs.get?_of_append (hmore ▸ hl) ?_
    rintro rfl
    rw [List.append_nil] at hmore
    exact hl' (hmore ▸ hdir')

/-- Without steps up a path led to a file before, if it does now and the file was there. -/
theorem fileAt_back (hfs : fs.Plain) (hfs' : fs'.Plain)
    (hwd : fs'.workingDirectory = fs.workingDirectory) (hup : ['.', '.'] ∉ Path.steps p)
    (hl : fs.get? l = some (.file c)) (h : fs'.FileAt p l) : fs.FileAt p l := by
  obtain ⟨hplace, c', hget⟩ := hfs'.place_of_fileAt h
  obtain ⟨e, hfind⟩ := FileSystem.fileAt_iff.mp h
  refine FileSystem.fileAt_iff.mpr ⟨c, ?_⟩
  have hdir : fs'.get? l ≠ some .directory := by rw [hget]; simp
  have hnames : ['.', '.'] ∉ namesOf p := by
    rw [namesOf, List.mem_append, not_or]
    refine ⟨hup, ?_⟩
    split <;> simp
  rw [place, ← foldl_stepTo_namesOf, hwd] at hplace
  obtain ⟨husable, hwalk⟩ := find_eq_ok_iff.mp hfind
  rw [hwd] at hwalk
  refine find_eq_ok_iff.mpr ⟨husable, ?_⟩
  exact hfs.walk_back hfs' hl hdir hnames hplace.symm hwalk

end Plain

end FileSystem

variable {s : Suite} {fs fs' : FileSystem} {spec : SpecFile} {specs : List SpecFile}
  {paths : List Path} {outcome : Outcome} {dirs : List Path}

/-! ### Cleaning -/

namespace Suite

/-- Where the modules of specs go. -/
def outputs (s : Suite) (specs : List SpecFile) : List Path :=
  specs.map fun spec => spec.output s.outputRoot

/-- A module that is there is removed. -/
theorem cleanOne_of_fileAt (hfs : fs.Plain) {l : Location}
    (h : fs.FileAt (spec.output s.outputRoot) l) :
    s.cleanOne fs spec = (.removed (spec.output s.outputRoot), fs.erase l) := by
  simp [cleanOne, cleanOneUnder, h.present, hfs.removeFile_of_fileAt h]

/-- Where there is none, nothing happens. -/
theorem cleanOne_of_not_fileAt (hfs : fs.Plain)
    (h : ∀ l, ¬ fs.FileAt (spec.output s.outputRoot) l) :
    (s.cleanOne fs spec).2 = fs ∧ ∀ p, (s.cleanOne fs spec).1 ≠ .removed p := by
  have hremoval := cleanOne_removal s fs spec
  generalize s.cleanOne fs spec = step at hremoval
  obtain ⟨outcome, fs'⟩ := step
  cases hremoval with
  | absent => exact ⟨rfl, fun p hp => by cases hp⟩
  | failed => exact ⟨rfl, fun p hp => by cases hp⟩
  | removed hremove => exact absurd (hfs.fileAt_of_removeFile hremove) (h _)

theorem stripped_cleanOne (s : Suite) (hfs : fs.Plain) (spec : SpecFile) :
    fs.Stripped [spec.output s.outputRoot] (s.cleanOne fs spec).2 := by
  by_cases hat : ∃ l, fs.FileAt (spec.output s.outputRoot) l
  · obtain ⟨l, hat⟩ := hat
    rw [cleanOne_of_fileAt hfs hat]
    exact hfs.stripped_removeFile (hfs.removeFile_of_fileAt hat)
  · rw [not_exists] at hat
    rw [(cleanOne_of_not_fileAt hfs hat).1]
    refine ⟨rfl, hfs, fun p hp l hatp => ?_, fun _ _ => rfl⟩
    obtain rfl := List.mem_singleton.mp hp
    exact absurd hatp (hat l)

/-- Cleaning takes away the files that output paths lead to, and nothing else. -/
theorem stripped_clean (s : Suite) (hfs : fs.Plain) (specs : List SpecFile) :
    fs.Stripped (s.outputs specs) (each s.cleanOne fs specs).2 := by
  induction specs generalizing fs with
  | nil => exact .nil hfs
  | cons spec rest ih =>
    have hfirst := stripped_cleanOne s hfs spec
    exact hfirst.append hfs (ih hfirst.plain)

end Suite

/-! ### Generating -/

/-- Files have grown: the sources are spared, files are still files, and a file that is not as it
was is one that some path leads to. -/
structure Grown (fs : FileSystem) (paths : List Path) (fs' : FileSystem) : Prop where
  spares : fs.Spares fs'
  files : ∀ l c, fs.get? l = some (.file c) → ∃ c', fs'.get? l = some (.file c')
  changed : ∀ l, fs'.content? l ≠ fs.content? l → ∃ p ∈ paths, fs'.FileAt p l

theorem Grown.refl (hfs : fs.Plain) (paths : List Path) : Grown fs paths fs :=
  ⟨hfs.spares_refl, fun _ c h => ⟨c, h⟩, fun _ h => absurd rfl h⟩

/-- Generating a module lets files grow. -/
theorem Grown.turn {fs'' : FileSystem} {d : Denials}
    (hout : Path.IsOutput s.outputRoot (spec.output s.outputRoot))
    (hmem : spec.output s.outputRoot ∈ paths) (h : Grown fs paths fs')
    (hturn : Turn s d fs' spec outcome fs'') : Grown fs paths fs'' := by
  have hfs' := h.spares.plain
  have hspares := hturn.spares hfs' hout
  refine ⟨h.spares.trans hspares, fun l c hl => ?_, fun l hl => ?_⟩
  · obtain ⟨c', hl'⟩ := h.files l c hl
    exact hturn.get?_file hfs' hl'
  -- what a path led to it leads to still
  have hkeep : fs''.content? l = fs'.content? l → ∃ p ∈ paths, fs''.FileAt p l := by
    intro heq
    obtain ⟨p, hp, hat⟩ := h.changed l fun heq' => hl (heq.trans heq')
    obtain ⟨-, c, hget⟩ := hfs'.place_of_fileAt hat
    obtain ⟨c', hget'⟩ := hturn.get?_file hfs' hget
    exact ⟨p, hp, hfs'.fileAt_mono hspares.plain hspares.workingDirectory hspares.directories hat
      hget'⟩
  by_cases hsame : fs''.content? l = fs'.content? l
  · exact hkeep hsame
  refine ⟨_, hmem, ?_⟩
  obtain ⟨r, hr, p, hp, hplace⟩ := (hturn.confined hfs' hout).changed l hsame
  obtain rfl := List.mem_singleton.mp hr
  cases hturn with
  | refused | blocked => cases hp
  | current => exact absurd rfl hsame
  | @written text made _ hcompile hwrite =>
    obtain rfl := Option.some.inj hp
    have hread := (hfs'.extends_makeDirectories d made).plain.readText_of_write hwrite
    obtain ⟨l', hfind⟩ := FileSystem.readText_eq_ok_iff.mp hread
    have hat : fs''.FileAt (spec.output s.outputRoot) l' :=
      FileSystem.fileAt_iff.mpr ⟨_, hfind⟩
    rw [(hspares.plain.place_of_fileAt hat).1, hspares.place_eq, hplace] at hat
    exact hat

namespace Suite

theorem grown_generate (hfs : fs.Plain) (hspecs : s.specs fs dirs = .ok specs) :
    Grown fs (s.outputs specs) (each s.generateOne fs specs).2 := by
  have hout := isOutput_of_mem_specs hfs hspecs
  refine each_induction (P := Grown fs (s.outputs specs)) ?_ (.refl hfs _)
  intro fs₁ spec hspec h
  exact h.turn (hout spec hspec) (List.mem_map_of_mem hspec) (generateOne_turn s fs₁ spec)

end Suite

/-! ### Both -/

/-- When the files that paths lead to are taken away again, the files are what they were just when
none of these was there before. -/
theorem Grown.extends_iff {fs₁ fs₂ : FileSystem} (hfs : fs.Plain) (h : Grown fs paths fs₁)
    (hstripped : fs₁.Stripped paths fs₂) :
    fs.Extends fs₂ ↔ ∀ p ∈ paths, ∀ l, fs₁.FileAt p l → fs.content? l = none := by
  have hfs₁ := h.spares.plain
  constructor
  · intro hext p hp l hat
    cases hcontent : fs.content? l with
    | none => rfl
    | some c =>
      have hkept := hext.keeps l _ (FileSystem.content?_eq_some_iff.mp hcontent)
      rw [hstripped.gone p hp l hat] at hkept
      cases hkept
  · intro hnew
    -- a file that no path leads to is as it was
    have hsame : ∀ l, (∀ p ∈ paths, ¬ fs₁.FileAt p l) → fs₁.content? l = fs.content? l := by
      intro l hnone
      by_contra hne
      obtain ⟨p, hp, hat⟩ := h.changed l hne
      exact hnone p hp hat
    refine ⟨hstripped.workingDirectory.trans h.spares.workingDirectory, fun l e hl => ?_,
      fun l c hl => ?_, hstripped.plain⟩
    · cases e with
      | directory => exact hstripped.directory hfs₁ (h.spares.directories l hl)
      | link target => exact absurd hl (hfs.no_links _ _)
      | file c =>
        have hcontent := FileSystem.content?_eq_some_iff.mpr hl
        have hnone : ∀ p ∈ paths, ¬ fs₁.FileAt p l := by
          intro p hp hat
          rw [hnew p hp l hat] at hcontent
          cases hcontent
        rw [hstripped.kept l hnone]
        exact FileSystem.content?_eq_some_iff.mp ((hsame l hnone).trans hcontent)
    · obtain ⟨hnone, hl₁⟩ := hstripped.get?_of_eq_some hl
      exact FileSystem.content?_eq_some_iff.mp
        ((hsame l hnone).symm.trans (FileSystem.content?_eq_some_iff.mpr hl₁))

/-- Paths that led nowhere, and never step up, lead to no file that was there before. -/
theorem Grown.content?_eq_none {fs₁ : FileSystem} (hfs : fs.Plain) (h : Grown fs paths fs₁)
    {p : Path} (habsent : fs.present p = false) (hup : ['.', '.'] ∉ Path.steps p) {l : Location}
    (hat : fs₁.FileAt p l) : fs.content? l = none := by
  cases hcontent : fs.content? l with
  | none => rfl
  | some c =>
    have hback := hfs.fileAt_back h.spares.plain h.spares.workingDirectory hup
      (FileSystem.content?_eq_some_iff.mp hcontent) hat
    rw [hback.present] at habsent
    cases habsent

namespace Suite

theorem spares_clean (hfs : fs.Plain)
    (hout : ∀ spec ∈ specs, Path.IsOutput s.outputRoot (spec.output s.outputRoot)) :
    fs.Spares (each s.cleanOne fs specs).2 := by
  refine each_induction (P := fs.Spares) ?_ hfs.spares_refl
  intro fs₁ spec hspec h
  exact h.trans ((cleanOne_removal s fs₁ spec).spares h.plain (hout spec hspec))

/-- Cleaning what is clean changes nothing and removes nothing. -/
theorem each_cleanOne_of_stripped {fs₁ fs₂ : FileSystem} (hfs₁ : fs₁.Plain)
    (h : fs₁.Stripped (s.outputs specs) fs₂) : (each s.cleanOne fs₂ specs).2 = fs₂ ∧
      ∀ r ∈ (each s.cleanOne fs₂ specs).1, ∀ p, r.outcome ≠ .removed p := by
  have hidle : ∀ spec ∈ specs, (s.cleanOne fs₂ spec).2 = fs₂ ∧
      ∀ p, (s.cleanOne fs₂ spec).1 ≠ .removed p := by
    intro spec hspec
    refine cleanOne_of_not_fileAt h.plain fun l hat => ?_
    obtain ⟨hat₁, hnone⟩ := (h.fileAt_iff hfs₁).mp hat
    exact hnone _ (List.mem_map_of_mem hspec) hat₁
  have heach : each s.cleanOne fs₂ specs =
      (specs.map fun spec => ⟨spec.path, (s.cleanOne fs₂ spec).1⟩, fs₂) :=
    each_of_idle fun spec hspec => Prod.ext rfl (hidle spec hspec).1
  rw [heach]
  refine ⟨rfl, fun r hr => ?_⟩
  obtain ⟨spec, hspec, rfl⟩ := List.mem_map.mp hr
  exact (hidle spec hspec).2

end Suite

/-- Generating and then cleaning leaves the files as they were, directories added, just when no
output path leads to a file in between that was there before. So it does if nothing is at the output
paths before and none of them steps up, and then cleaning once more finds nothing to remove. When
the directories cannot be searched, nothing is done. -/
theorem clean_undoes_generate (hfs : fs.Plain) (hext : s.config.extension ≠ Path.moduleExtension)
    (dirs : List Path) :
    (∀ why, s.specs fs dirs = .error why →
      s.generate fs dirs = .error why ∧ s.clean fs dirs = .error why) ∧
    ∀ specs, s.specs fs dirs = .ok specs → ∃ reports fs₁ removals fs₂,
      s.generate fs dirs = .ok (reports, fs₁) ∧ s.clean fs₁ dirs = .ok (removals, fs₂) ∧
      (fs.Extends fs₂ ↔
        ∀ p ∈ s.outputs specs, ∀ l, fs₁.FileAt p l → fs.content? l = none) ∧
      ((∀ p ∈ s.outputs specs, fs.present p = false ∧ ['.', '.'] ∉ Path.steps p) →
        fs.Extends fs₂) ∧
      (fs.Extends fs₂ → ∃ again, s.clean fs₂ dirs = .ok (again, fs₂) ∧
        ∀ r ∈ again, ∀ p, r.outcome ≠ .removed p) := by
  refine ⟨fun why hwhy => ?_, fun specs hspecs => ?_⟩
  · rw [Suite.generate_eq, Suite.clean_eq, hwhy]
    exact ⟨rfl, rfl⟩
  have hgrown := Suite.grown_generate hfs hspecs
  have hspecs₁ := Suite.specs_each hfs hext hspecs
  have hgenerate := Suite.generate_of_specs hspecs
  generalize Suite.each s.generateOne fs specs = run at hgrown hspecs₁ hgenerate
  obtain ⟨reports, fs₁⟩ := run
  have hfs₁ : fs₁.Plain := hgrown.spares.plain
  have hstripped := Suite.stripped_clean s hfs₁ specs
  have hiff := hgrown.extends_iff hfs hstripped
  have hclean : s.clean fs₁ dirs = .ok (Suite.each s.cleanOne fs₁ specs) := by
    rw [Suite.clean_eq, hspecs₁]
    rfl
  refine ⟨reports, fs₁, (Suite.each s.cleanOne fs₁ specs).1, (Suite.each s.cleanOne fs₁ specs).2,
    hgenerate, hclean, hiff, fun habsent => hiff.mpr ?_, fun hsame => ?_⟩
  · intro p hp l hat
    exact hgrown.content?_eq_none hfs (habsent p hp).1 (habsent p hp).2 hat
  · have hspares := hgrown.spares.trans
      (Suite.spares_clean hfs₁ (Suite.isOutput_of_mem_specs hfs₁ hspecs₁))
    have hspecs₂ : s.specs (Suite.each s.cleanOne fs₁ specs).2 dirs = .ok specs :=
      SpecFile.discover_of_spares hfs hspares hext (fun l c hl => ⟨c, hsame.keeps l _ hl⟩) hspecs
    obtain ⟨hagain, hremoved⟩ := Suite.each_cleanOne_of_stripped hfs₁ hstripped
    refine ⟨(Suite.each s.cleanOne (Suite.each s.cleanOne fs₁ specs).2 specs).1, ?_, hremoved⟩
    rw [Suite.clean_eq, hspecs₂]
    exact congrArg Except.ok (Prod.ext rfl hagain)

/-- The files are as they were, but for a directory. -/
theorem clean_undoes_generate_project : ∃ reports fs₁ removals fs₂,
    movedSuite.generate (projectWith "s") ["s".toList] = .ok (reports, fs₁) ∧
    movedSuite.clean fs₁ ["s".toList] = .ok (removals, fs₂) ∧ (projectWith "s").Extends fs₂ ∧
    ∃ again, movedSuite.clean fs₂ ["s".toList] = .ok (again, fs₂) ∧
      ∀ r ∈ again, ∀ p, r.outcome ≠ .removed p := by
  have hspecs : movedSuite.specs (projectWith "s") ["s".toList] =
      .ok [⟨"s".toList, "s/a.carinata".toList⟩] := by cbv
  have houtputs : movedSuite.outputs [⟨"s".toList, "s/a.carinata".toList⟩] =
      ["out/a.py".toList] := by cbv
  have habsent : (projectWith "s").present "out/a.py".toList = false := by cbv
  obtain ⟨reports, fs₁, removals, fs₂, hgenerate, hclean, -, hundone, hagain⟩ :=
    (clean_undoes_generate (s := movedSuite) (plain_projectWith (by decide)) (by decide)
      ["s".toList]).2 _ hspecs
  have hextends : (projectWith "s").Extends fs₂ := by
    refine hundone fun p hp => ?_
    rw [houtputs, List.mem_singleton] at hp
    rw [hp]
    exact ⟨habsent, by decide⟩
  exact ⟨reports, fs₁, removals, fs₂, hgenerate, hclean, hextends, hagain hextends⟩

/-! The output root passes through a directory that is missing, and up again, to one with an old
module. -/

/-- A suite whose modules go to `out`, by a detour. -/
def detourSuite : Suite :=
  { config := { outputDir := some "x/../out".toList }, temporary := "/tmp".toList }

/-- A project with a spec and an old module. -/
def detourProject : FileSystem where
  entries := [(["w".toList], .directory), (["w".toList, "s".toList], .directory),
    (["w".toList, "out".toList], .directory),
    (["w".toList, "out".toList, "a.py".toList], .file (.text "old\n".toList)),
    (["w".toList, "s".toList, "a.carinata".toList], .file (.text movedSpec))]
  workingDirectory := ["w".toList]
  nodup := by decide

/-- The project after the directory of the detour was made and the module was written. -/
def detourWith (text : Text) : FileSystem :=
  (detourProject.put ["w".toList, "x".toList] .directory).put
    ["w".toList, "out".toList, "a.py".toList] (.file (.text text))

theorem plain_detourProject : detourProject.Plain := FileSystem.plain_of_entries (by decide)

theorem generate_detour {rest : Text} (hcompile : ∀ file path : Text,
    compile ⟨file, movedSpec⟩ path movedSuite.config.options =
      .ok (moduleHead movedSpec movedSuite.config.options ++ path ++ rest)) :
    detourSuite.generate detourProject ["s".toList] =
      .ok ([⟨"s/a.carinata".toList, .generated "x/../out/a.py".toList⟩],
        detourWith (moduleHead movedSpec movedSuite.config.options ++
          "/w/s/a.carinata".toList ++ rest)) := by
  have hspecs : detourSuite.specs detourProject ["s".toList] =
      .ok [⟨"s".toList, "s/a.carinata".toList⟩] := by cbv
  have hread : detourProject.readText "s/a.carinata".toList = .ok movedSpec := by cbv
  have houtput : (SpecFile.mk "s".toList "s/a.carinata".toList).output detourSuite.outputRoot =
      "x/../out/a.py".toList := by cbv
  have hunread : detourProject.readText "x/../out/a.py".toList = .error .noEntry := by cbv
  have hplace : FileSystem.absolute (detourProject.place "s/a.carinata".toList) =
      "/w/s/a.carinata".toList := by cbv
  have hparent : Path.parent? "x/../out/a.py".toList = some "x/../out".toList := by cbv
  have hmake : detourProject.makeDirectories "x/../out".toList =
      (detourProject.put ["w".toList, "x".toList] .directory, none) := by cbv
  have hwrite : ∀ text, (detourProject.put ["w".toList, "x".toList] .directory).write
      "x/../out/a.py".toList (.text text) = .ok (detourWith text) := by
    intro text; cbv
  rw [Suite.generate_of_specs hspecs, Suite.each_cons, Suite.generateOne_of_written
    plain_detourProject houtput hread (Suite.isCurrentUnder_of_unread (d := .nothing) hunread _ _)
    hplace (hcompile _ _) hparent hmake (hwrite _)]
  rfl

theorem clean_detour (text : Text) : detourSuite.clean (detourWith text) ["s".toList] =
    .ok ([⟨"s/a.carinata".toList, .removed "x/../out/a.py".toList⟩],
      (detourWith text).erase ["w".toList, "out".toList, "a.py".toList]) := by
  have hspecs : detourSuite.specs (detourWith text) ["s".toList] =
      .ok [⟨"s".toList, "s/a.carinata".toList⟩] := by cbv
  have houtput : (SpecFile.mk "s".toList "s/a.carinata".toList).output detourSuite.outputRoot =
      "x/../out/a.py".toList := by cbv
  have hpresent : (detourWith text).present "x/../out/a.py".toList = true := by cbv
  have hfind : (detourWith text).find false "x/../out/a.py".toList =
      .ok (.at ["w".toList, "out".toList, "a.py".toList] (.file (.text text))) := by cbv
  have hclean : detourSuite.cleanOne (detourWith text) ⟨"s".toList, "s/a.carinata".toList⟩ =
      (.removed "x/../out/a.py".toList,
        (detourWith text).erase ["w".toList, "out".toList, "a.py".toList]) := by
    simp only [Suite.cleanOne, Suite.cleanOneUnder, houtput, Denials.present_nothing, hpresent,
      Denials.removeFile_nothing, FileSystem.removeFile, hfind, Bool.not_true, Bool.false_eq_true,
      if_false]
  rw [Suite.clean_eq, hspecs, Except.map, Suite.each_cons, hclean]
  rfl

/-- Nothing is at the only output path, and yet a file that was there is not there any more after
generating and cleaning. -/
theorem clean_removes_hidden_file :
    detourProject.Plain ∧ detourSuite.config.extension ≠ Path.moduleExtension ∧
    detourSuite.specs detourProject ["s".toList] = .ok [⟨"s".toList, "s/a.carinata".toList⟩] ∧
    detourSuite.outputs [⟨"s".toList, "s/a.carinata".toList⟩] = ["x/../out/a.py".toList] ∧
    detourProject.present "x/../out/a.py".toList = false ∧ ∃ fs₁ fs₂,
      detourSuite.generate detourProject ["s".toList] =
        .ok ([⟨"s/a.carinata".toList, .generated "x/../out/a.py".toList⟩], fs₁) ∧
      detourSuite.clean fs₁ ["s".toList] =
        .ok ([⟨"s/a.carinata".toList, .removed "x/../out/a.py".toList⟩], fs₂) ∧
      detourProject.content? ["w".toList, "out".toList, "a.py".toList] =
        some (.text "old\n".toList) ∧
      fs₂.content? ["w".toList, "out".toList, "a.py".toList] = none := by
  obtain ⟨rest, hcompile⟩ := exists_compile_movedSpec
  refine ⟨plain_detourProject, by decide, by cbv, by cbv, by cbv, _, _,
    generate_detour hcompile, clean_detour _, by cbv, ?_⟩
  rw [FileSystem.content?, FileSystem.get?_erase_self _ (by decide)]

end BlockSpec
