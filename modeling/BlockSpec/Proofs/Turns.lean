import BlockSpec.Proofs.Sources
import BlockSpec.Suite.Batch

/-! # One spec after the other

A run gives every spec its turn, on the files as the turns before have left them. What a turn can do
is said once, whatever is denied to it:

    generate   refused   the spec cannot be read or compiled    nothing happens
               current   its module carries its fingerprint     nothing happens
               blocked   its module cannot be written           directories may have been made
               written   its module is written
    clean      idle      there is no module, or it stays        nothing happens
               removed   its module is removed

Every turn spares the sources, and so does every run. -/

namespace BlockSpec

namespace Suite

variable {s : Suite} {fs fs' : FileSystem} {spec : SpecFile} {specs : List SpecFile}
  {step : FileSystem → SpecFile → Outcome × FileSystem}
  {steps : Nat → FileSystem → SpecFile → Outcome × FileSystem} {options : Options}

/-! ### Runs -/

theorem eachWith_cons (steps : Nat → FileSystem → SpecFile → Outcome × FileSystem)
    (fs : FileSystem) (spec : SpecFile) (rest : List SpecFile) :
    eachWith steps fs (spec :: rest) =
      (⟨spec.path, (steps 0 fs spec).1⟩ ::
          (eachWith (fun k => steps (k + 1)) (steps 0 fs spec).2 rest).1,
        (eachWith (fun k => steps (k + 1)) (steps 0 fs spec).2 rest).2) := rfl

/-- What the turn of every spec keeps, a run keeps. -/
theorem eachWith_induction {P : FileSystem → Prop}
    (hstep : ∀ k fs, ∀ spec ∈ specs, P fs → P (steps k fs spec).2) (h : P fs) :
    P (eachWith steps fs specs).2 := by
  induction specs generalizing fs steps with
  | nil => exact h
  | cons spec rest ih =>
    exact ih (fun k fs a ha => hstep (k + 1) fs a (List.mem_cons_of_mem _ ha))
      (hstep 0 fs spec List.mem_cons_self h)

theorem eachWith_append : ∀ (steps : Nat → FileSystem → SpecFile → Outcome × FileSystem)
    (specs specs' : List SpecFile) (fs : FileSystem), eachWith steps fs (specs ++ specs') =
      ((eachWith steps fs specs).1 ++ (eachWith (fun k => steps (k + specs.length))
          (eachWith steps fs specs).2 specs').1,
        (eachWith (fun k => steps (k + specs.length)) (eachWith steps fs specs).2 specs').2)
  | _, [], _, _ => rfl
  | steps, spec :: rest, specs', fs => by
    rw [List.cons_append, eachWith_cons, eachWith_cons, eachWith_append _ rest specs']
    rfl

/-- Every spec gets its report, in order. -/
theorem map_spec_eachWith (steps : Nat → FileSystem → SpecFile → Outcome × FileSystem)
    (specs : List SpecFile) (fs : FileSystem) :
    (eachWith steps fs specs).1.map (·.spec) = specs.map (·.path) := by
  induction specs generalizing fs steps with
  | nil => rfl
  | cons spec rest ih => rw [eachWith_cons, List.map_cons, ih, List.map_cons]

theorem length_eachWith (steps : Nat → FileSystem → SpecFile → Outcome × FileSystem)
    (specs : List SpecFile) (fs : FileSystem) :
    (eachWith steps fs specs).1.length = specs.length := by
  rw [← List.length_map (f := (·.spec)), map_spec_eachWith, List.length_map]

theorem length_eachWith_take (steps : Nat → FileSystem → SpecFile → Outcome × FileSystem)
    (fs : FileSystem) {k : Nat} (h : specs[k]? = some spec) :
    (eachWith steps fs (specs.take k)).1.length = k := by
  rw [length_eachWith, List.length_take,
    Nat.min_eq_left (Nat.le_of_lt (List.getElem?_eq_some_iff.mp h).1)]

theorem eachWith_take_succ {k : Nat} (h : specs[k]? = some spec) :
    eachWith steps fs (specs.take (k + 1)) =
      ((eachWith steps fs (specs.take k)).1 ++
          [⟨spec.path, (steps k (eachWith steps fs (specs.take k)).2 spec).1⟩],
        (steps k (eachWith steps fs (specs.take k)).2 spec).2) := by
  have hlength : (specs.take k).length = k := by
    rw [← length_eachWith steps, length_eachWith_take steps fs h]
  rw [List.take_add_one, h, Option.toList_some, eachWith_append, eachWith_cons, hlength,
    Nat.zero_add]
  rfl

theorem getElem?_eachWith {k : Nat} (h : specs[k]? = some spec) :
    (eachWith steps fs specs).1[k]? =
      some ⟨spec.path, (steps k (eachWith steps fs (specs.take k)).2 spec).1⟩ := by
  have hlength := length_eachWith_take steps fs h
  have hsplit := eachWith_append steps (specs.take (k + 1)) (specs.drop (k + 1)) fs
  rw [List.take_append_drop, eachWith_take_succ h] at hsplit
  rw [hsplit, List.append_assoc, List.getElem?_append_right (Nat.le_of_eq hlength), hlength,
    Nat.sub_self]
  rfl

theorem generate_eq (s : Suite) (fs : FileSystem) (dirs : List Path) :
    s.generate fs dirs = (s.specs fs dirs).map (each s.generateOne fs) := rfl

theorem clean_eq (s : Suite) (fs : FileSystem) (dirs : List Path) :
    s.clean fs dirs = (s.specs fs dirs).map (each s.cleanOne fs) := rfl

theorem check_eq (s : Suite) (fs : FileSystem) (dirs : List Path) :
    s.check fs dirs = (s.specs fs dirs).map (List.map (s.checkOne fs)) := by
  refine congrArg (Except.map · _) (funext fun specs => ?_)
  exact List.ext_getElem (by simp) fun k _ _ => by simp [checkOne]

theorem checkOne_eq (s : Suite) (fs : FileSystem) (spec : SpecFile) : s.checkOne fs spec =
    ⟨spec.path, spec.output s.outputRoot,
      (compileFile fs spec.path s.config.options).map fun expected =>
        match fs.readText (spec.output s.outputRoot) with
        | .error _ => .missing expected
        | .ok existing => if existing = expected then .current else .stale existing expected⟩ := by
  rw [checkOne, checkOneUnder, Denials.readText_nothing]
  rfl

theorem each_cons (step : FileSystem → SpecFile → Outcome × FileSystem) (fs : FileSystem)
    (spec : SpecFile) (rest : List SpecFile) : each step fs (spec :: rest) =
      (⟨spec.path, (step fs spec).1⟩ :: (each step (step fs spec).2 rest).1,
        (each step (step fs spec).2 rest).2) := rfl

theorem each_induction {P : FileSystem → Prop}
    (hstep : ∀ fs, ∀ spec ∈ specs, P fs → P (step fs spec).2) (h : P fs) :
    P (each step fs specs).2 := eachWith_induction (fun _ => hstep) h

theorem each_append (step : FileSystem → SpecFile → Outcome × FileSystem)
    (specs specs' : List SpecFile) (fs : FileSystem) : each step fs (specs ++ specs') =
      ((each step fs specs).1 ++ (each step (each step fs specs).2 specs').1,
        (each step (each step fs specs).2 specs').2) :=
  eachWith_append (fun _ => step) specs specs' fs

theorem length_each (step : FileSystem → SpecFile → Outcome × FileSystem)
    (specs : List SpecFile) (fs : FileSystem) : (each step fs specs).1.length = specs.length :=
  length_eachWith _ specs fs

/-- The `k`-th report of a run is about the files as they are at the turn of the `k`-th spec. -/
theorem exists_turn {k : Nat} {r : FileReport} (h : (each step fs specs).1[k]? = some r) :
    ∃ spec rest, specs = specs.take k ++ spec :: rest ∧
      r = ⟨spec.path, (step (each step fs (specs.take k)).2 spec).1⟩ ∧
      (each step fs specs).1.drop (k + 1) =
        (each step (step (each step fs (specs.take k)).2 spec).2 rest).1 ∧
      (each step fs specs).2 =
        (each step (step (each step fs (specs.take k)).2 spec).2 rest).2 := by
  have hk : k < specs.length := by
    rw [← length_each step specs fs]
    exact (List.getElem?_eq_some_iff.mp h).1
  have hspec : specs[k]? = some specs[k] := List.getElem?_eq_getElem hk
  have hreport : (each step fs specs).1[k]? =
      some ⟨specs[k].path, (step (each step fs (specs.take k)).2 specs[k]).1⟩ :=
    getElem?_eachWith hspec
  have hlength : (each step fs (specs.take (k + 1))).1.length = k + 1 := by
    rw [length_each, List.length_take, Nat.min_eq_left hk]
  have hrest := each_append step (specs.take (k + 1)) (specs.drop (k + 1)) fs
  rw [List.take_append_drop] at hrest
  have hafter : (each step fs (specs.take (k + 1))).2 =
      (step (each step fs (specs.take k)).2 specs[k]).2 :=
    congrArg Prod.snd (eachWith_take_succ hspec)
  refine ⟨specs[k], specs.drop (k + 1), ?_, Option.some.inj (h.symm.trans hreport), ?_, ?_⟩
  · rw [List.getElem_cons_drop, List.take_append_drop]
  · rw [hrest, List.drop_left' hlength, hafter]
  · rw [hrest, hafter]

/-- Specs whose turns change nothing. -/
theorem each_of_idle {outcome : SpecFile → Outcome}
    (h : ∀ spec ∈ specs, step fs spec = (outcome spec, fs)) :
    each step fs specs = (specs.map fun spec => ⟨spec.path, outcome spec⟩, fs) := by
  induction specs with
  | nil => rfl
  | cons spec rest ih =>
    rw [each_cons, h spec List.mem_cons_self, ih fun a ha => h a (List.mem_cons_of_mem _ ha)]
    rfl

/-! ### Compiling a file -/

theorem readText_of_compileFileUnder {d : Denials} {p : Path} {text : Text}
    (h : compileFileUnder d fs p options = .ok text) : ∃ content, fs.readText p = .ok content := by
  unfold compileFileUnder at h
  cases hread : d.readText fs p with
  | error e => rw [hread] at h; cases h
  | ok content => exact ⟨content, Denials.eq_ok_of_attempt hread⟩

theorem compileFileUnder_eq {d : Denials} {p recorded : Path} {content : Text}
    (hread : d.readText fs p = .ok content) (hcanonical : d.canonical fs p = .ok recorded)
    (options : Options) :
    compileFileUnder d fs p options = compile ⟨p, content⟩ recorded options := by
  rw [compileFileUnder, hread]
  simp only [compileContent, hcanonical]

theorem canonical_of_readText (hfs : fs.Plain) {p : Path} {content : Text}
    (h : fs.readText p = .ok content) :
    fs.canonical p = .ok (FileSystem.absolute (fs.place p)) := by
  obtain ⟨l, hfind⟩ := FileSystem.readText_eq_ok_iff.mp h
  cases hfs.find_leads hfind with
  | entry hget => rw [FileSystem.canonical, FileSystem.entryAt?, hfind]; rfl

/-- A file that can be read is compiled from its text, and its module records its place. -/
theorem compileFile_eq (hfs : fs.Plain) {p : Path} {content : Text}
    (h : fs.readText p = .ok content) (options : Options) : compileFile fs p options =
      compile ⟨p, content⟩ (FileSystem.absolute (fs.place p)) options :=
  compileFileUnder_eq (d := .nothing) h (canonical_of_readText hfs h) options

/-- Where the sources are spared, a spec compiles as before. -/
theorem compileFile_of_spares (hfs : fs.Plain) (h : fs.Spares fs') {p : Path}
    (hp : FileSystem.isModule (fs.place p) = false) {text : Text}
    (hcompile : compileFile fs p options = .ok text) : compileFile fs' p options = .ok text := by
  obtain ⟨content, hread⟩ := readText_of_compileFileUnder hcompile
  rw [compileFile_eq h.plain (h.readText hfs hp hread), h.place_eq, ← compileFile_eq hfs hread]
  exact hcompile

theorem isCurrentUnder_of_unread {d : Denials} {out : Path} {e : FileError}
    (h : d.readText fs out = .error e) (content : Text) (options : Options) :
    isCurrentUnder d fs out content options = false := by
  rw [isCurrentUnder, h]

end Suite

theorem isCurrent_iff {fs : FileSystem} {out : Path} {content : Text} {options : Options} :
    Suite.isCurrent fs out content options = true ↔ ∃ text, fs.readText out = .ok text ∧
      Stamp.readDigest? text = some (fingerprint content options).hex := by
  rw [Suite.isCurrent, Suite.isCurrentUnder, Denials.readText_nothing]
  cases hread : fs.readText out with
  | error e => simp
  | ok text => simp

/-! ### Turns -/

variable {s : Suite} {d : Denials} {fs fs' : FileSystem} {spec : SpecFile} {specs : List SpecFile}
  {outcome : Outcome}

/-- What the turn of a spec that is to be generated can do. -/
inductive Turn (s : Suite) (d : Denials) (fs : FileSystem) (spec : SpecFile) :
    Outcome → FileSystem → Prop
  | refused {why : Diagnostic} :
      Suite.compileFileUnder d fs spec.path s.config.options = .error why →
      Turn s d fs spec (.failed why) fs
  | current {content : Text} : s.force = false → d.readText fs spec.path = .ok content →
      Suite.isCurrentUnder d fs (spec.output s.outputRoot) content s.config.options = true →
      Turn s d fs spec (.unchanged (spec.output s.outputRoot)) fs
  | blocked {why : Diagnostic} {text : Text} {made : Path} :
      Suite.compileFileUnder d fs spec.path s.config.options = .ok text →
      Turn s d fs spec (.failed why) (d.makeDirectories fs made).1
  | written {text : Text} {made : Path} {fs' : FileSystem} :
      Suite.compileFileUnder d fs spec.path s.config.options = .ok text →
      (d.makeDirectories fs made).1.write (spec.output s.outputRoot) (.text text) = .ok fs' →
      Turn s d fs spec (.generated (spec.output s.outputRoot)) fs'

/-- Writing what was compiled, after directories have been made. -/
theorem turn_write {text : Text} (made : Path)
    (hcompile : Suite.compileFileUnder d fs spec.path s.config.options = .ok text) :
    let step : Outcome × FileSystem :=
      match d.write (d.makeDirectories fs made).1 (spec.output s.outputRoot) (.text text) with
      | .error e =>
        (.failed (fileFault (spec.output s.outputRoot) e), (d.makeDirectories fs made).1)
      | .ok fs => (.generated (spec.output s.outputRoot), fs)
    Turn s d fs spec step.1 step.2 := by
  intro step
  simp only [step]
  split
  · exact .blocked hcompile
  · rename_i hwrite
    exact .written hcompile (Denials.eq_ok_of_attempt hwrite)

/-- These are all turns there are. -/
theorem generateOneUnder_turn (s : Suite) (d : Denials) (fs : FileSystem) (spec : SpecFile) :
    Turn s d fs spec (s.generateOneUnder d fs spec).1 (s.generateOneUnder d fs spec).2 := by
  unfold Suite.generateOneUnder
  simp only
  split
  · rename_i hread
    exact .refused (by rw [Suite.compileFileUnder, hread])
  · rename_i content hcontent
    have hcompileFile : Suite.compileFileUnder d fs spec.path s.config.options =
        Suite.compileContent d fs spec.path content s.config.options := by
      rw [Suite.compileFileUnder, hcontent]
    split
    · rename_i hcond
      obtain ⟨hforce, hcurrent⟩ := Bool.and_eq_true_iff.mp hcond
      exact .current (by simpa using hforce) hcontent hcurrent
    · split
      · rename_i hcompile
        exact .refused (hcompileFile.trans hcompile)
      · rename_i text hcompile
        unfold Suite.writeModule
        simp only
        split
        · have hnone : fs = (d.makeDirectories fs []).1 := by
            rw [Denials.makeDirectories]
            rfl
          have hwrite := turn_write [] (hcompileFile.trans hcompile)
          rw [← hnone] at hwrite
          exact hwrite
        · rename_i parent _
          have hwrite := turn_write parent (hcompileFile.trans hcompile)
          split
          · rename_i fs₁ e heq
            obtain rfl : (d.makeDirectories fs parent).1 = fs₁ := by rw [heq]
            exact .blocked (hcompileFile.trans hcompile)
          · rename_i heq
            rw [heq] at hwrite
            exact hwrite

theorem generateOne_turn (s : Suite) (fs : FileSystem) (spec : SpecFile) :
    Turn s .nothing fs spec (s.generateOne fs spec).1 (s.generateOne fs spec).2 :=
  generateOneUnder_turn s .nothing fs spec

/-- What the turn of a spec whose module is to be removed can do. -/
inductive Removal (s : Suite) (fs : FileSystem) (spec : SpecFile) : Outcome → FileSystem → Prop
  | absent : Removal s fs spec (.absent (spec.output s.outputRoot)) fs
  | failed {why : Diagnostic} : Removal s fs spec (.failed why) fs
  | removed {fs' : FileSystem} : fs.removeFile (spec.output s.outputRoot) = .ok fs' →
      Removal s fs spec (.removed (spec.output s.outputRoot)) fs'

theorem cleanOneUnder_removal (s : Suite) (d : Denials) (fs : FileSystem) (spec : SpecFile) :
    Removal s fs spec (s.cleanOneUnder d fs spec).1 (s.cleanOneUnder d fs spec).2 := by
  unfold Suite.cleanOneUnder
  simp only
  split
  · exact .absent
  · split
    · exact .failed
    · rename_i hremove
      exact .removed (Denials.eq_ok_of_attempt hremove)

theorem cleanOne_removal (s : Suite) (fs : FileSystem) (spec : SpecFile) :
    Removal s fs spec (s.cleanOne fs spec).1 (s.cleanOne fs spec).2 :=
  cleanOneUnder_removal s .nothing fs spec

/-! ### Turns spare the sources -/

theorem Turn.spares (hfs : fs.Plain)
    (hout : Path.IsOutput s.outputRoot (spec.output s.outputRoot))
    (h : Turn s d fs spec outcome fs') : fs.Spares fs' := by
  cases h with
  | refused | current => exact hfs.spares_refl
  | blocked => exact hfs.spares_makeDirectories d _
  | written _ hwrite =>
    have hmade := hfs.spares_makeDirectories d
    exact (hmade _).trans ((hmade _).plain.spares_write hout hwrite)

theorem Removal.spares (hfs : fs.Plain)
    (hout : Path.IsOutput s.outputRoot (spec.output s.outputRoot))
    (h : Removal s fs spec outcome fs') : fs.Spares fs' := by
  cases h with
  | absent | failed => exact hfs.spares_refl
  | removed hremove => exact hfs.spares_removeFile hout hremove

/-- A text stays as it is in the turn of a spec, or the module of the spec is written to its
place. -/
theorem Turn.readText_or (hfs : fs.Plain) (h : Turn s d fs spec outcome fs') {out : Path}
    {text : Text} (hread : fs.readText out = .ok text) : fs'.readText out = .ok text ∨
      outcome = .generated (spec.output s.outputRoot) ∧
        fs.place out = fs.place (spec.output s.outputRoot) ∧
        ∃ text', Suite.compileFileUnder d fs spec.path s.config.options = .ok text' ∧
          fs'.readText out = .ok text' ∧ fs'.readText (spec.output s.outputRoot) = .ok text' := by
  have hget := hfs.get?_of_readText hread
  cases h with
  | refused | current => exact Or.inl hread
  | @blocked _ _ made =>
    have hext := hfs.extends_makeDirectories d made
    exact Or.inl (hfs.readText_mono hext.plain hext.workingDirectory
      (fun m hm => hext.keeps m _ hm) hread (hext.keeps _ _ hget))
  | @written text' made _ hcompile hwrite =>
    have hext := hfs.extends_makeDirectories d made
    have hwritten := hext.plain.readText_of_write hwrite
    obtain ⟨rfl, hplain, hne, hdir⟩ := hext.plain.write_eq hwrite
    rw [FileSystem.place_congr hext.workingDirectory] at hne hdir hplain hwritten ⊢
    -- directories are still there, so what can be read is what stands at the place
    have hmono : ∀ t', ((d.makeDirectories fs made).1.put (fs.place (spec.output s.outputRoot))
        (.file (.text text'))).get? (fs.place out) = some (.file (.text t')) →
        ((d.makeDirectories fs made).1.put (fs.place (spec.output s.outputRoot))
          (.file (.text text'))).readText out = .ok t' := by
      intro t' hget'
      refine hfs.readText_mono hplain hext.workingDirectory (fun m hm => ?_) hread hget'
      rw [FileSystem.get?_put_of_ne]
      · exact hext.keeps m _ hm
      · rintro rfl
        exact hdir (hext.keeps _ _ hm)
    by_cases hplace : fs.place out = fs.place (spec.output s.outputRoot)
    · refine Or.inr ⟨rfl, hplace, text', hcompile, hmono _ ?_, hwritten⟩
      rw [hplace, FileSystem.get?_put_self _ hne]
    · refine Or.inl (hmono _ ?_)
      rw [FileSystem.get?_put_of_ne _ hplace]
      exact hext.keeps _ _ hget

namespace Suite

/-- A run spares the sources. -/
theorem spares_generateUnder (hfs : fs.Plain)
    (hout : ∀ spec ∈ specs, Path.IsOutput s.outputRoot (spec.output s.outputRoot))
    (d : Nat → Denials) :
    fs.Spares (eachWith (fun k => s.generateOneUnder (d k)) fs specs).2 := by
  refine eachWith_induction (P := fs.Spares) ?_ hfs.spares_refl
  intro k fs₁ spec hspec h
  exact h.trans ((generateOneUnder_turn s (d k) fs₁ spec).spares h.plain (hout spec hspec))

theorem spares_each (hfs : fs.Plain)
    (hout : ∀ spec ∈ specs, Path.IsOutput s.outputRoot (spec.output s.outputRoot)) :
    fs.Spares (each s.generateOne fs specs).2 := spares_generateUnder hfs hout fun _ => .nothing

end Suite

end BlockSpec
