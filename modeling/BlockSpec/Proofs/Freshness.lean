import BlockSpec.Proofs.Isolation
import BlockSpec.Proofs.Separation

/-! # Fresh modules

Two things can be asked of the module of a spec:

    Fresh     is it what the spec compiles to now?             so a check asks
    Stamped   does it carry the fingerprint of the spec?       so generating asks

A module that was just written is fresh, a fresh module is stamped, and the turns of other specs of
the same directory leave it so: they go to other modules. After generating, then, every module that
was written is fresh and every module that was left alone is stamped, and generating once more does
nothing.

A module that was left alone may not be fresh. The fingerprint covers the text of a spec and the
settings, but the module also records the path of its spec, and that can have changed. Nothing else
can. -/

namespace BlockSpec

variable {s : Suite} {fs fs' : FileSystem} {a b spec : SpecFile} {specs : List SpecFile}
  {ext stem stem' : Text} {names names' : List Text} {outcome outcome' : Outcome}

/-- The module of a spec is what the spec compiles to. -/
def Fresh (s : Suite) (fs : FileSystem) (spec : SpecFile) : Prop :=
  ∃ text, Suite.compileFile fs spec.path s.config.options = .ok text ∧
    fs.readText (spec.output s.outputRoot) = .ok text

/-- The module of a spec carries the fingerprint of the spec. -/
def Stamped (s : Suite) (fs : FileSystem) (spec : SpecFile) : Prop :=
  ∃ content, fs.readText spec.path = .ok content ∧
    Suite.isCurrent fs (spec.output s.outputRoot) content s.config.options = true

theorem Fresh.stamped (hfs : fs.Plain) (h : Fresh s fs spec) : Stamped s fs spec := by
  obtain ⟨text, hcompile, hread⟩ := h
  obtain ⟨content, hcontent⟩ := Suite.readText_of_compileFileUnder hcompile
  rw [Suite.compileFile_eq hfs hcontent] at hcompile
  exact ⟨content, hcontent, isCurrent_iff.mpr ⟨text, hread, (compile_eq_ok hcompile).1⟩⟩

/-! ### One turn -/

/-- How the module of a spec stands after an outcome. -/
inductive Settled (s : Suite) (fs : FileSystem) (spec : SpecFile) : Outcome → Prop
  | generated : Fresh s fs spec → Settled s fs spec (.generated (spec.output s.outputRoot))
  | unchanged : Stamped s fs spec → Settled s fs spec (.unchanged (spec.output s.outputRoot))
  | failed {why : Diagnostic} : Settled s fs spec (.failed why)

/-- After its own turn a spec is settled. -/
theorem Turn.settled (hfs : fs.Plain) (hroute : spec.Route ext names stem)
    (hext : ext ≠ Path.moduleExtension) (h : Turn s .nothing fs spec outcome fs') :
    Settled s fs' spec outcome := by
  have hspares := h.spares hfs (hroute.isOutput _)
  cases h with
  | refused | blocked => exact .failed
  | current _ hcontent hcurrent => exact .unchanged ⟨_, hcontent, hcurrent⟩
  | @written text made _ hcompile hwrite =>
    have hmodule := fs.isModule_place hroute.extension hext
    exact .generated ⟨text, Suite.compileFile_of_spares hfs hspares hmodule hcompile,
      (hfs.spares_makeDirectories .nothing made).plain.readText_of_write hwrite⟩

/-- The module of a spec stays as it is in the turn of another, or it is fresh: whoever writes to it
is the same spec. -/
theorem Turn.kept_or_fresh (hfs : fs.Plain) (ha : a.Route ext names stem)
    (hb : b.Route ext names' stem') (hext : ext ≠ Path.moduleExtension)
    (hsame : a.relative = b.relative → a.path = b.path) (h : Turn s .nothing fs b outcome fs')
    {text : Text}
    (hread : fs.readText (a.output s.outputRoot) = .ok text) :
    fs'.readText (a.output s.outputRoot) = .ok text ∨ Fresh s fs' a := by
  have hspares := h.spares hfs (hb.isOutput _)
  rcases h.readText_or hfs hread with hkept | ⟨-, hplace, text', hcompile, hreada, hreadb⟩
  · exact Or.inl hkept
  · rw [← hspares.place_eq, ← hspares.place_eq] at hplace
    have hpath := hsame (ha.relative_of_place hb hspares.plain hreada hreadb hplace)
    rw [← hpath] at hcompile
    exact Or.inr ⟨text', Suite.compileFile_of_spares hfs hspares
      (fs.isModule_place ha.extension hext) hcompile, hreada⟩

/-- What is settled stays settled in the turns of other specs. -/
theorem Settled.turn (hfs : fs.Plain) (ha : a.Route ext names stem)
    (hb : b.Route ext names' stem') (hext : ext ≠ Path.moduleExtension)
    (hsame : a.relative = b.relative → a.path = b.path) (h : Settled s fs a outcome)
    (hturn : Turn s .nothing fs b outcome' fs') : Settled s fs' a outcome := by
  have hspares := hturn.spares hfs (hb.isOutput _)
  have hmodule := fs.isModule_place ha.extension hext
  cases h with
  | failed => exact .failed
  | generated hfresh =>
    obtain ⟨text, hcompile, hread⟩ := hfresh
    refine .generated ?_
    rcases hturn.kept_or_fresh hfs ha hb hext hsame hread with hkept | hfresh
    · exact ⟨text, Suite.compileFile_of_spares hfs hspares hmodule hcompile, hkept⟩
    · exact hfresh
  | unchanged hstamped =>
    obtain ⟨content, hcontent, hcurrent⟩ := hstamped
    obtain ⟨text, hread, hdigest⟩ := isCurrent_iff.mp hcurrent
    refine .unchanged ?_
    rcases hturn.kept_or_fresh hfs ha hb hext hsame hread with hkept | hfresh
    · exact ⟨content, hspares.readText hfs hmodule hcontent,
        isCurrent_iff.mpr ⟨text, hkept, hdigest⟩⟩
    · exact hfresh.stamped hspares.plain

/-- Files stay files. -/
theorem Turn.get?_file {denials : Denials} (hfs : fs.Plain)
    (h : Turn s denials fs spec outcome fs') {l : Location} {c : Content}
    (hl : fs.get? l = some (.file c)) : ∃ c', fs'.get? l = some (.file c') := by
  cases h with
  | refused | current => exact ⟨c, hl⟩
  | blocked => exact ⟨c, (hfs.extends_makeDirectories denials _).keeps _ _ hl⟩
  | @written text made _ hcompile hwrite =>
    have hext := hfs.extends_makeDirectories denials made
    obtain ⟨rfl, -, hne, -⟩ := hext.plain.write_eq hwrite
    by_cases heq : l = (denials.makeDirectories fs made).1.place (spec.output s.outputRoot)
    · exact ⟨.text text, by rw [heq, FileSystem.get?_put_self _ hne]⟩
    · exact ⟨c, by rw [FileSystem.get?_put_of_ne _ heq]; exact hext.keeps _ _ hl⟩

/-! ### Whole runs -/

namespace Suite

variable {dirs : List Path} {d : Path} {reports : List FileReport}

/-- At the end of a run every spec is settled, if the ways to different specs are different. -/
theorem settled_each (hfs : fs.Plain) (hext : ext ≠ Path.moduleExtension)
    (hroutes : ∀ a ∈ specs, ∃ names stem, a.Route ext names stem)
    (hsame : ∀ a ∈ specs, ∀ b ∈ specs, a.relative = b.relative → a.path = b.path) :
    List.Forall₂ (fun spec r => r.spec = spec.path ∧
        Settled s (each s.generateOne fs specs).2 spec r.outcome)
      specs (each s.generateOne fs specs).1 := by
  induction specs generalizing fs with
  | nil => exact .nil
  | cons spec rest ih =>
    obtain ⟨names, stem, hroute⟩ := hroutes spec List.mem_cons_self
    have hturn := generateOne_turn s fs spec
    have hplain := (hturn.spares hfs (hroute.isOutput _)).plain
    have hrest := ih hplain (fun a ha => hroutes a (List.mem_cons_of_mem _ ha))
      fun a ha b hb => hsame a (List.mem_cons_of_mem _ ha) b (List.mem_cons_of_mem _ hb)
    rw [each_cons]
    refine .cons ⟨rfl, ?_⟩ hrest
    -- the turns of the rest leave the first spec settled
    suffices h : (each s.generateOne (s.generateOne fs spec).2 rest).2.Plain ∧
        Settled s (each s.generateOne (s.generateOne fs spec).2 rest).2 spec
          (s.generateOne fs spec).1 from h.2
    refine each_induction (P := fun fs' => fs'.Plain ∧
      Settled s fs' spec (s.generateOne fs spec).1) ?_ ⟨hplain, hturn.settled hfs hroute hext⟩
    rintro fs₁ b hb ⟨hfs₁, hsettled⟩
    obtain ⟨names', stem', hroute'⟩ := hroutes b (List.mem_cons_of_mem _ hb)
    have hturn' := generateOne_turn s fs₁ b
    exact ⟨(hturn'.spares hfs₁ (hroute'.isOutput _)).plain,
      hsettled.turn hfs₁ hroute hroute' hext
        (hsame spec List.mem_cons_self b (List.mem_cons_of_mem _ hb)) hturn'⟩

/-- After a run the same specs are found. -/
theorem specs_each (hfs : fs.Plain) (hext : s.config.extension ≠ Path.moduleExtension)
    (hspecs : s.specs fs dirs = .ok specs) :
    s.specs (each s.generateOne fs specs).2 dirs = .ok specs := by
  have hout := isOutput_of_mem_specs hfs hspecs
  refine SpecFile.discover_of_spares hfs (spares_each hfs hout) hext (fun l c hl => ?_) hspecs
  suffices h : (each s.generateOne fs specs).2.Plain ∧
      ∃ c', (each s.generateOne fs specs).2.get? l = some (.file c') from h.2
  refine each_induction (P := fun fs' => fs'.Plain ∧ ∃ c', fs'.get? l = some (.file c')) ?_
    ⟨hfs, c, hl⟩
  rintro fs₁ spec hspec ⟨hfs₁, c₁, hl₁⟩
  have hturn := generateOne_turn s fs₁ spec
  exact ⟨(hturn.spares hfs₁ (hout spec hspec)).plain, hturn.get?_file hfs₁ hl₁⟩

/-- After generating the specs of one directory, these are settled. -/
theorem settled_of_generate (hfs : fs.Plain)
    (hext : s.config.extension ≠ Path.moduleExtension)
    (hrun : s.generate fs [d] = .ok (reports, fs')) : ∃ specs, s.specs fs [d] = .ok specs ∧
      s.specs fs' [d] = .ok specs ∧ fs' = (each s.generateOne fs specs).2 ∧ fs'.Plain ∧
      List.Forall₂ (fun spec r => r.spec = spec.path ∧ Settled s fs' spec r.outcome)
        specs reports := by
  obtain ⟨specs, hspecs, rfl, rfl⟩ := exists_of_generate hrun
  refine ⟨specs, hspecs, specs_each hfs hext hspecs, rfl,
    (spares_each hfs (isOutput_of_mem_specs hfs hspecs)).plain,
    settled_each hfs hext (fun a ha => SpecFile.exists_route hfs.names hspecs ha) ?_⟩
  intro a ha b hb
  have hroot : ∀ c ∈ specs, c.root = d := fun c hc =>
    List.mem_singleton.mp (SpecFile.of_mem_discover hspecs hc).1
  exact SpecFile.path_of_relative hfs.names hspecs ha hb ((hroot a ha).trans (hroot b hb).symm)

theorem checkOne_of_fresh (h : Fresh s fs spec) :
    s.checkOne fs spec = ⟨spec.path, spec.output s.outputRoot, .ok .current⟩ := by
  obtain ⟨text, hcompile, hread⟩ := h
  simp [checkOne_eq, hcompile, hread, Except.map]

theorem checkOne_of_ne {existing expected : Text}
    (hcompile : compileFile fs spec.path s.config.options = .ok expected)
    (hread : fs.readText (spec.output s.outputRoot) = .ok existing) (hne : existing ≠ expected) :
    s.checkOne fs spec =
      ⟨spec.path, spec.output s.outputRoot, .ok (.stale existing expected)⟩ := by
  simp [checkOne_eq, hcompile, hread, hne, Except.map]

end Suite

/-- What follows for each pair, after the first list is mapped. -/
theorem forall₂_map_of_mem {α β γ : Type} {R : α → β → Prop} {Q : β → γ → Prop} {f : α → γ}
    {l : List α} {m : List β} (h : List.Forall₂ R l m)
    (hQ : ∀ a ∈ l, ∀ b ∈ m, R a b → Q b (f a)) : List.Forall₂ Q m (l.map f) := by
  induction h with
  | nil => exact .nil
  | @cons a b l m hab _ ih =>
    refine .cons (hQ a List.mem_cons_self b List.mem_cons_self hab) (ih fun a' ha' b' hb' => ?_)
    exact hQ a' (List.mem_cons_of_mem _ ha') b' (List.mem_cons_of_mem _ hb')

/-- Where no spec failed, every module carries its fingerprint. -/
theorem stamped_of_settled {reports : List FileReport} (hfs : fs.Plain)
    (h : List.Forall₂ (fun spec r => r.spec = spec.path ∧ Settled s fs spec r.outcome)
      specs reports) (hok : ∀ r ∈ reports, r.isFailure = false) :
    List.Forall₂ (fun spec r => Stamped s fs spec ∧ r.spec = spec.path ∧
      r.output? = some (spec.output s.outputRoot)) specs reports := by
  induction h with
  | nil => exact .nil
  | @cons spec r _ _ hr _ ih =>
    obtain ⟨hr', hrest⟩ := List.forall_mem_cons.mp hok
    refine .cons ?_ (ih hrest)
    obtain ⟨path, outcome⟩ := r
    obtain ⟨hpath, hsettled⟩ := hr
    cases hsettled with
    | generated hfresh => exact ⟨hfresh.stamped hfs, hpath, rfl⟩
    | unchanged hstamped => exact ⟨hstamped, hpath, rfl⟩
    | failed => cases hr'

/-- After the specs of one directory are generated, every module that was written is what its spec
compiles to, and a check finds it current. If no spec failed, generating once more finds every
module unchanged and changes nothing. -/
theorem generate_settles {d : Path} {reports : List FileReport} (hfs : fs.Plain)
    (hext : s.config.extension ≠ Path.moduleExtension)
    (hrun : s.generate fs [d] = .ok (reports, fs')) :
    (∃ checks, s.check fs' [d] = .ok checks ∧ List.Forall₂ (fun r c => c.spec = r.spec ∧
      ∀ p, r.outcome = .generated p → c.output = p ∧ c.result = .ok .current ∧
        ∃ text, Suite.compileFile fs' r.spec s.config.options = .ok text ∧
          fs'.readText p = .ok text) reports checks) ∧
    ((∀ r ∈ reports, r.isFailure = false) → ∃ again,
      Suite.generate { s with force := false } fs' [d] = .ok (again, fs') ∧
        List.Forall₂ (fun r r' => r'.spec = r.spec ∧
          ∃ p, r.output? = some p ∧ r'.outcome = .unchanged p) reports again) := by
  obtain ⟨specs, -, hspecs, -, hfs', hsettled⟩ := Suite.settled_of_generate hfs hext hrun
  refine ⟨⟨specs.map (s.checkOne fs'), by rw [Suite.check_eq, hspecs]; rfl, ?_⟩, fun hok => ?_⟩
  · refine forall₂_map_of_mem hsettled ?_
    rintro spec - ⟨path, outcome⟩ - ⟨rfl, hsettled⟩
    refine ⟨rfl, ?_⟩
    rintro p rfl
    cases hsettled with
    | generated hfresh =>
      rw [Suite.checkOne_of_fresh hfresh]
      exact ⟨rfl, rfl, hfresh⟩
  · obtain ⟨hstamped, hreports⟩ :=
      (List.forall₂_and_left _ _).mp (stamped_of_settled hfs' hsettled hok)
    have hidle : ∀ spec ∈ specs, Suite.generateOne { s with force := false } fs' spec =
        (.unchanged (spec.output s.outputRoot), fs') := by
      intro spec hspec
      obtain ⟨content, hread, hcurrent⟩ := hstamped spec hspec
      exact Suite.generateOne_of_isCurrent (s := { s with force := false }) rfl hread hcurrent
    have hagain := Suite.generate_of_specs (s := { s with force := false }) hspecs
    rw [Suite.each_of_idle hidle] at hagain
    refine ⟨_, hagain, forall₂_map_of_mem hreports ?_⟩
    rintro spec - r - ⟨hpath, houtput⟩
    exact ⟨hpath.symm, _, houtput, rfl⟩

theorem generate_settles_project : ∃ fs',
    movedSuite.generate (projectWith "s") ["s".toList] =
      .ok ([⟨"s/a.carinata".toList, .generated "out/a.py".toList⟩], fs') ∧
    movedSuite.check fs' ["s".toList] =
      .ok [⟨"s/a.carinata".toList, "out/a.py".toList, .ok .current⟩] ∧
    movedSuite.generate fs' ["s".toList] =
      .ok ([⟨"s/a.carinata".toList, .unchanged "out/a.py".toList⟩], fs') := by
  obtain ⟨rest, hcompile⟩ := exists_compile_movedSpec
  have hrun := generate_project hcompile
  refine ⟨_, hrun, ?_⟩
  obtain ⟨⟨checks, hcheck, hchecks⟩, hagain⟩ :=
    generate_settles (plain_projectWith (by decide)) (by decide) hrun
  obtain ⟨again, hagain, hreports⟩ := hagain (by decide)
  refine ⟨?_, ?_⟩
  · obtain ⟨⟨spec, output, result⟩, checks', ⟨hspec, hc⟩, hnil, rfl⟩ :=
      List.forall₂_cons_left_iff.mp hchecks
    obtain ⟨houtput, hresult, -⟩ := hc _ rfl
    obtain ⟨rfl, rfl, rfl⟩ : spec = _ ∧ output = _ ∧ result = _ := ⟨hspec, houtput, hresult⟩
    cases hnil
    exact hcheck
  · obtain ⟨⟨spec, outcome⟩, again', ⟨hspec, p, hp, houtcome⟩, hnil, rfl⟩ :=
      List.forall₂_cons_left_iff.mp hreports
    obtain rfl := Option.some.inj hp
    obtain ⟨rfl, rfl⟩ : spec = _ ∧ outcome = _ := ⟨hspec, houtcome⟩
    cases hnil
    exact hagain

/-! ### What a check finds after generating -/

theorem Turn.exists_readText (h : Turn s .nothing fs spec outcome fs')
    (hok : ∀ why, outcome ≠ .failed why) :
    ∃ content, fs.readText spec.path = .ok content := by
  cases h with
  | refused | blocked => exact absurd rfl (hok _)
  | current _ hcontent => exact ⟨_, hcontent⟩
  | written hcompile => exact Suite.readText_of_compileFileUnder hcompile

/-- A run without failures takes the fingerprint of every spec as it is at its end. -/
theorem Suite.exists_mem_fingerprinted (hfs : fs.Plain) (hext : ext ≠ Path.moduleExtension)
    (hroutes : ∀ a ∈ specs, ∃ names stem, a.Route ext names stem)
    (hok : ∀ r ∈ (each s.generateOne fs specs).1, r.isFailure = false) (hspec : spec ∈ specs) :
    ∃ content, (each s.generateOne fs specs).2.readText spec.path = .ok content ∧
      fingerprintBytes content s.config.options ∈ s.fingerprinted fs specs := by
  induction specs generalizing fs with
  | nil => cases hspec
  | cons a rest ih =>
    rw [each_cons] at hok ⊢
    obtain ⟨ha, hrest⟩ := List.forall_mem_cons.mp hok
    obtain ⟨⟨names, stem, hroute⟩, hothers⟩ := List.forall_mem_cons.mp hroutes
    have hturn := generateOne_turn s fs a
    have hspares := hturn.spares hfs (hroute.isOutput _)
    rcases List.mem_cons.mp hspec with rfl | hspec
    · have hne : ∀ why, (s.generateOne fs spec).1 ≠ .failed why := by
        intro why hwhy
        rw [hwhy] at ha
        cases ha
      obtain ⟨content, hread⟩ := hturn.exists_readText hne
      refine ⟨content, ?_, mem_fingerprinted_cons hread rest⟩
      -- the turns of the rest leave the spec as it is
      have hout : ∀ b ∈ rest, Path.IsOutput s.outputRoot (b.output s.outputRoot) := by
        intro b hb
        obtain ⟨names, stem, hroute⟩ := hothers b hb
        exact hroute.isOutput _
      exact (hspares.trans (spares_each hspares.plain hout)).readText hfs
        (fs.isModule_place hroute.extension hext) hread
    · obtain ⟨content, hread, hmem⟩ := ih hspares.plain hothers hrest hspec
      exact ⟨content, hread, List.mem_append_right _ hmem⟩

/-- What a check finds for a spec that did not fail: its module is current, or it was left alone and
records a path that is not the path of the spec, and there is no other difference. -/
inductive Repaired (s : Suite) (fs : FileSystem) (r : FileReport) (c : CheckReport) : Prop
  | current : c.spec = r.spec → r.output? = some c.output → c.result = .ok .current →
      Repaired s fs r c
  | moved {content path recorded rest : Text} : c.spec = r.spec →
      r.outcome = .unchanged c.output → fs.readText c.spec = .ok content →
      fs.canonical c.spec = .ok path → recorded ≠ path →
      c.result = .ok (.stale (moduleHead content s.config.options ++ recorded ++ rest)
        (moduleHead content s.config.options ++ path ++ rest)) → Repaired s fs r c

/-- A module that carries the fingerprint of a spec, and was compiled, differs from a fresh one in
the path at most. -/
theorem Repaired.of_compiled (hfs : fs.Plain) {content file recorded text : Text}
    (hcontent : fs.readText spec.path = .ok content)
    (hread : fs.readText (spec.output s.outputRoot) = .ok text)
    (hcompile : compile ⟨file, content⟩ recorded s.config.options = .ok text) :
    Repaired s fs ⟨spec.path, .unchanged (spec.output s.outputRoot)⟩ (s.checkOne fs spec) := by
  obtain ⟨-, rest, rfl, hfresh⟩ := compile_eq_ok hcompile
  have hexpected := (Suite.compileFile_eq hfs hcontent s.config.options).trans (hfresh _ _)
  by_cases hpath : recorded = FileSystem.absolute (fs.place spec.path)
  · rw [Suite.checkOne_of_fresh ⟨_, hexpected, hpath ▸ hread⟩]
    exact .current rfl rfl rfl
  · rw [Suite.checkOne_of_ne hexpected hread (by simpa using hpath)]
    exact .moved rfl rfl hcontent (Suite.canonical_of_readText hfs hcontent) hpath rfl

/-- After any admissible history, when the specs of one directory are generated and none fails, a
check finds every module current, except for those that were left alone and record another path. -/
theorem check_after_generate {history : List Action} {d : Path} {reports : List FileReport}
    (h : Admissible fs (history ++ [.generate s [d]]))
    (hext : s.config.extension ≠ Path.moduleExtension)
    (hrun : s.generate (Action.replay fs history) [d] = .ok (reports, fs'))
    (hok : ∀ r ∈ reports, r.isFailure = false) :
    ∃ checks, s.check fs' [d] = .ok checks ∧ List.Forall₂ (Repaired s fs') reports checks := by
  have hbase : Char.ofNat 0 ∉ s.config.baseClass := h.allowed history (.generate s [d]) [] rfl
  have hstart := h.sound_replay
  obtain ⟨specs, hspecs, hspecs', rfl, -, hsettled⟩ :=
    Suite.settled_of_generate hstart.plain hext hrun
  obtain rfl : _ = reports := congrArg Prod.fst
    (Except.ok.inj ((Suite.generate_of_specs hspecs).symm.trans hrun))
  have hknown := Action.known_generate hspecs
  have hsound := hstart.each_generateOne hbase fun bytes hbytes => by
    rw [hknown]
    exact List.mem_append_right _ hbytes
  have hroot : (Suite.each s.generateOne (Action.replay fs history) specs).2.place s.outputRoot ∈
      Action.roots fs (history ++ [Action.generate s [d]]) := by
    rw [FileSystem.place_congr (Suite.plain_each s hstart.plain specs).2]
    exact Action.place_mem_roots
  refine ⟨_, by rw [Suite.check_eq, hspecs']; rfl, forall₂_map_of_mem hsettled ?_⟩
  rintro spec hspec ⟨path, outcome⟩ hr ⟨rfl, hsettled⟩
  cases hsettled with
  | failed => cases hok _ hr
  | generated hfresh =>
    rw [Suite.checkOne_of_fresh hfresh]
    exact .current rfl rfl rfl
  | unchanged hstamped =>
    obtain ⟨content, hcontent, hcurrent⟩ := hstamped
    obtain ⟨content', hcontent', hbytes⟩ := Suite.exists_mem_fingerprinted hstart.plain hext
      (fun a ha => SpecFile.exists_route hstart.plain.names hspecs ha) hok hspec
    obtain rfl : content = content' := Except.ok.inj (hcontent.symm.trans hcontent')
    obtain ⟨file, path, text, hread, hcompile⟩ := hsound.compiled_of_isCurrent h.no_collision hbase
      (hknown ▸ List.mem_append_right _ hbytes)
      (Suite.isOutput_of_mem_specs hstart.plain hspecs spec hspec) hroot hcurrent
    exact .of_compiled hsound.plain hcontent hread hcompile

/-! The spec that was moved: its module is left alone, and a check finds the old path in it. -/

theorem check_moved {rest : Text} (hcompile : ∀ file path : Text,
    compile ⟨file, movedSpec⟩ path movedSuite.config.options =
      .ok (moduleHead movedSpec movedSuite.config.options ++ path ++ rest)) {text : Text}
    (htext : text ≠ moduleHead movedSpec movedSuite.config.options ++ "/w/r/a.carinata".toList ++
      rest) :
    movedSuite.check (withModule (projectWith "r") text) ["r".toList] =
      .ok [⟨"r/a.carinata".toList, "out/a.py".toList, .ok (.stale text (moduleHead movedSpec
        movedSuite.config.options ++ "/w/r/a.carinata".toList ++ rest))⟩] := by
  have hspecs : movedSuite.specs (withModule (projectWith "r") text) ["r".toList] =
      .ok [⟨"r".toList, "r/a.carinata".toList⟩] := by cbv
  have hread : (withModule (projectWith "r") text).readText "r/a.carinata".toList =
      .ok movedSpec := by cbv
  have houtput : (SpecFile.mk "r".toList "r/a.carinata".toList).output movedSuite.outputRoot =
      "out/a.py".toList := by cbv
  have hmodule : (withModule (projectWith "r") text).readText "out/a.py".toList = .ok text := by cbv
  have hplace : FileSystem.absolute ((withModule (projectWith "r") text).place
      "r/a.carinata".toList) = "/w/r/a.carinata".toList := by cbv
  have hr : Path.Proper "r".toList := by decide
  have hplain := plain_withModule (plain_projectWith hr) (by cbv) (by cbv) text
  have hfile := (Suite.compileFile_eq hplain hread movedSuite.config.options).trans (hcompile _ _)
  rw [hplace] at hfile
  rw [Suite.check_eq, hspecs, Except.map, List.map_singleton,
    Suite.checkOne_of_ne hfile (houtput ▸ hmodule) htext, houtput]

/-- A spec is generated and moved. Generating it again reports no failure, and still a check of the
same directory does not find its module current. -/
theorem moved_spec_stays_stale : ∃ text expected,
    Admissible (projectWith "s") (movedHistory text ++ [.generate movedSuite ["r".toList]]) ∧
    movedSuite.force = false ∧ movedSuite.config.extension ≠ Path.moduleExtension ∧
    movedSuite.generate (Action.replay (projectWith "s") (movedHistory text)) ["r".toList] =
      .ok ([⟨"r/a.carinata".toList, .unchanged "out/a.py".toList⟩],
        withModule (projectWith "r") text) ∧
    movedSuite.check (withModule (projectWith "r") text) ["r".toList] =
      .ok [⟨"r/a.carinata".toList, "out/a.py".toList, .ok (.stale text expected)⟩] := by
  obtain ⟨rest, hcompile⟩ := exists_compile_movedSpec
  have hrun := generate_moved (compile_eq_ok (hcompile [] "/w/s/a.carinata".toList)).1
  have hne : moduleHead movedSpec movedSuite.config.options ++ "/w/s/a.carinata".toList ++ rest ≠
      moduleHead movedSpec movedSuite.config.options ++ "/w/r/a.carinata".toList ++ rest := by
    simp
  exact ⟨_, _, admissible_moved (generate_project hcompile), rfl, by decide, hrun,
    check_moved hcompile hne⟩

theorem check_after_generate_moved : ∃ text checks,
    movedSuite.generate (Action.replay (projectWith "s") (movedHistory text)) ["r".toList] =
      .ok ([⟨"r/a.carinata".toList, .unchanged "out/a.py".toList⟩],
        withModule (projectWith "r") text) ∧
    movedSuite.check (withModule (projectWith "r") text) ["r".toList] = .ok checks ∧
    List.Forall₂ (Repaired movedSuite (withModule (projectWith "r") text))
      [⟨"r/a.carinata".toList, .unchanged "out/a.py".toList⟩] checks := by
  obtain ⟨rest, hcompile⟩ := exists_compile_movedSpec
  have hrun := generate_moved (compile_eq_ok (hcompile [] "/w/s/a.carinata".toList)).1
  obtain ⟨checks, hcheck, hrepaired⟩ := check_after_generate
    (admissible_moved (generate_project hcompile)) (by decide) hrun (by decide)
  exact ⟨_, checks, hrun, hcheck, hrepaired⟩

end BlockSpec
