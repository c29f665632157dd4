import BlockSpec.Proofs.Sources
import Mathlib

/-! # Modules apart

Where the module of a spec goes depends on the way from the spec's directory to the spec, and on
nothing else: the directories on that way, and the stem of the name.

    spec      root/names/stem.ext
    module    output root/names/stem.py

The way can be read back from the path of the module, and also from the place that this path leads
to. So specs of one directory never share a module. Specs of different directories do share one
when the ways to them are the same. -/

namespace BlockSpec

namespace Path

variable {a : Path} {stem stem' : Text}

theorem meaning_injective : Function.Injective meaning := by
  intro x y h
  unfold meaning at h
  split at h <;> split at h <;> simp_all

theorem words_open (ha : Open a) (rest : Path) : words (a ++ rest) = words a ++ words rest :=
  filter_pieces_open rfl ha rest

theorem words_joinWith {names : List Text} (hne : names ≠ [])
    (hnames : ∀ n ∈ names, '/' ∉ n ∧ isIdle n = false) :
    words (Text.joinWith ['/'] names) = names := by
  rw [words, Text.pieces_joinWith (fun n hn => (hnames n hn).1) hne, List.filter_eq_self]
  intro n hn
  simp [(hnames n hn).2]

/-- What an open path starts with does not depend on the names that follow. -/
theorem cut_fst_open (ha : Open a) : ∃ start, ∀ names, names ≠ [] →
    (∀ n ∈ names, '/' ∉ n ∧ isIdle n = false) →
      (cut (a ++ Text.joinWith ['/'] names)).1 = start := by
  have hpieces : ∀ names, names ≠ [] → (∀ n ∈ names, '/' ∉ n ∧ isIdle n = false) →
      Text.pieces '/' (a ++ Text.joinWith ['/'] names) = lead a ++ names := by
    intro names hne hnames
    rw [pieces_open ha, Text.pieces_joinWith (fun n hn => (hnames n hn).1) hne]
  -- the first piece decides: it is a piece of the path, or else the first of the names
  cases hl : lead a with
  | nil =>
    refine ⟨none, fun names hne hnames => ?_⟩
    obtain ⟨x, rest, rfl⟩ := List.exists_cons_of_ne_nil hne
    obtain ⟨hx, hdot⟩ : x ≠ [] ∧ x ≠ ['.'] := by
      simpa [isIdle] using (hnames x List.mem_cons_self).2
    rw [cut_of_pieces (by rw [hpieces _ hne hnames, hl]; rfl) (fun h => absurd h hx), if_neg hx,
      if_neg hdot]
  | cons x rest =>
    refine ⟨if x = [] then some .top else if x = ['.'] then some .here else none,
      fun names hne hnames => ?_⟩
    rw [cut_of_pieces (by rw [hpieces _ hne hnames, hl]; rfl) (by simp [hne])]
    split
    · rfl
    · split <;> rfl

/-- Names behind an open path are its last components. -/
theorem components_open_names (ha : Open a) : ∃ front, ∀ names, names ≠ [] →
    (∀ n ∈ names, '/' ∉ n ∧ isIdle n = false) →
      components (a ++ Text.joinWith ['/'] names) = front ++ names.map meaning := by
  obtain ⟨start, hstart⟩ := cut_fst_open ha
  refine ⟨start.toList ++ (words a).map meaning, fun names hne hnames => ?_⟩
  rw [components_eq, hstart names hne hnames, words_open ha, words_joinWith hne hnames]
  simp

/-! ### Names of modules -/

theorem moduleName_of_ne (hstem : stem ≠ ['.']) :
    moduleName stem = stem ++ '.' :: moduleExtension := if_neg hstem

theorem moduleName_ne_up (hstem : stem ≠ ['.']) : moduleName stem ≠ ['.', '.'] := by
  rw [moduleName_of_ne hstem]
  intro h
  have hlen := congrArg List.length h
  simp [moduleExtension] at hlen

/-- Stems can be read back from the names of modules. -/
theorem moduleName_injective : Function.Injective moduleName := by
  intro stem stem' h
  by_cases hstem : stem = ['.']
  · by_cases hstem' : stem' = ['.']
    · rw [hstem, hstem']
    · exact absurd (h.symm.trans (by rw [hstem]; rfl)) (moduleName_ne_up hstem')
  · by_cases hstem' : stem' = ['.']
    · exact absurd (h.trans (by rw [hstem']; rfl)) (moduleName_ne_up hstem)
    · rw [moduleName_of_ne hstem, moduleName_of_ne hstem'] at h
      exact List.append_cancel_right h

end Path

namespace SpecFile

variable {a b spec : SpecFile} {ext stem stem' : Text} {names names' : List Text} {root : Path}
  {fs : FileSystem} {dirs : List Path} {specs : List SpecFile}

namespace Route

/-- The name of a module is a name, or the step up. -/
theorem moduleName_proper (h : spec.Route ext names stem) (hstem : stem ≠ ['.']) :
    Path.Proper (Path.moduleName stem) := by
  have hslash : '/' ∉ stem := fun hmem => h.proper_name.no_slash (List.mem_append_left _ hmem)
  rw [Path.moduleName_of_ne hstem]
  exact (Path.isModuleName_of_stem (Path.splitName_eq_some h.split).2.2 hslash).1

theorem pieces_not_idle (h : spec.Route ext names stem) :
    ∀ n ∈ names ++ [Path.moduleName stem], '/' ∉ n ∧ Path.isIdle n = false := by
  intro n hn
  rcases List.mem_append.mp hn with hn | hn
  · exact ⟨(h.proper_names n hn).no_slash, (h.proper_names n hn).isIdle⟩
  · rw [List.mem_singleton.mp hn]
    by_cases hstem : stem = ['.']
    · rw [hstem]
      decide
    · exact ⟨(h.moduleName_proper hstem).no_slash, (h.moduleName_proper hstem).isIdle⟩

/-- The same names and the same module name: the same way. -/
theorem relative_eq (ha : a.Route ext names stem) (hb : b.Route ext names' stem')
    (h : names ++ [Path.moduleName stem] = names' ++ [Path.moduleName stem']) :
    a.relative = b.relative := by
  obtain ⟨rfl, hlast⟩ := List.append_inj' h rfl
  obtain rfl := Path.moduleName_injective (List.singleton_inj.mp hlast)
  rw [ha.relative, hb.relative]

/-- The way to a spec can be read back from the path of its module. -/
theorem relative_of_components (ha : a.Route ext names stem) (hb : b.Route ext names' stem')
    (h : (a.output root).components = (b.output root).components) : a.relative = b.relative := by
  obtain ⟨front, hfront⟩ := Path.components_open_names (Path.open_opened root)
  rw [ha.output_eq, hb.output_eq, hfront _ (by simp) ha.pieces_not_idle,
    hfront _ (by simp) hb.pieces_not_idle] at h
  exact ha.relative_eq hb
    (Path.meaning_injective.list_map (List.append_cancel_left h))

theorem place_output (h : spec.Route ext names stem) (hstem : stem ≠ ['.']) (fs : FileSystem)
    (root : Path) :
    fs.place (spec.output root) = fs.place root ++ (names ++ [Path.moduleName stem]) := by
  rw [h.output_eq, Text.joinWith_concat, ← List.append_assoc,
    fs.place_below h.proper_names (h.moduleName_proper hstem)]

/-- The step up leads to no text. -/
theorem stem_ne (h : spec.Route ext names stem) (hfs : fs.Plain) {t : Text}
    (hread : fs.readText (spec.output root) = .ok t) : stem ≠ ['.'] := by
  rintro rfl
  obtain ⟨l, hfind⟩ := FileSystem.readText_eq_ok_iff.mp hread
  rw [h.output_eq, Text.joinWith_concat, ← List.append_assoc] at hfind
  obtain ⟨l', hl'⟩ := hfs.find_up h.proper_names hfind
  cases hl'

/-- The way to a spec can be read back from the place of its module, if there is one. -/
theorem relative_of_place (ha : a.Route ext names stem) (hb : b.Route ext names' stem')
    (hfs : fs.Plain) {t t' : Text} (hreada : fs.readText (a.output root) = .ok t)
    (hreadb : fs.readText (b.output root) = .ok t')
    (h : fs.place (a.output root) = fs.place (b.output root)) : a.relative = b.relative := by
  rw [ha.place_output (ha.stem_ne hfs hreada), hb.place_output (hb.stem_ne hfs hreadb)] at h
  exact ha.relative_eq hb (List.append_cancel_left h)

end Route

/-- In one directory, the way to a spec tells the spec. -/
theorem path_of_relative (hfs : fs.ProperNames) (h : discover fs dirs ext = .ok specs)
    (ha : a ∈ specs) (hb : b ∈ specs) (hroot : a.root = b.root) (hway : a.relative = b.relative) :
    a.path = b.path := by
  obtain ⟨-, -, paths, hfiles, hpa⟩ := of_mem_discover h ha
  obtain ⟨-, -, paths', hfiles', hpb⟩ := of_mem_discover h hb
  rw [← hroot, hfiles] at hfiles'
  obtain rfl := Except.ok.inj hfiles'
  rcases filesUnder_cases hfs hfiles with rfl | ⟨hne, hbelow⟩
  · rw [List.mem_singleton.mp hpa, List.mem_singleton.mp hpb]
  · obtain ⟨names, n, hnames, hn, hpath⟩ := hbelow _ hpa
    obtain ⟨names', n', hnames', hn', hpath'⟩ := hbelow _ hpb
    rw [relative_below hne hnames hn hpath,
      relative_below (hroot ▸ hne) hnames' hn' (hroot ▸ hpath')] at hway
    rw [hpath, hpath', hway]

/-- Two specs share the path of a module exactly when the ways to them from their directories are
the same. Specs of one directory do not. -/
theorem output_eq_iff_relative (hfs : fs.ProperNames) (h : discover fs dirs ext = .ok specs)
    (ha : a ∈ specs) (hb : b ∈ specs) (root : Path) :
    ((a.output root).components = (b.output root).components ↔ a.relative = b.relative) ∧
      (a.root = b.root → a.path ≠ b.path →
        (a.output root).components ≠ (b.output root).components) := by
  obtain ⟨names, stem, hroute⟩ := exists_route hfs h ha
  obtain ⟨names', stem', hroute'⟩ := exists_route hfs h hb
  refine ⟨⟨hroute.relative_of_components hroute', fun hway => ?_⟩, fun hroot hne heq => ?_⟩
  · rw [output_eq, output_eq, hway]
  · exact hne (path_of_relative hfs h ha hb hroot (hroute.relative_of_components hroute' heq))

/-! Two directories with a spec of the same name each, and one with another. -/

/-- A file system with specs in two directories. -/
def twoDirectories : FileSystem where
  entries := [(["a".toList], .directory), (["b".toList], .directory),
    (["a".toList, "x.carinata".toList], .file (.text [])),
    (["a".toList, "y.carinata".toList], .file (.text [])),
    (["b".toList, "x.carinata".toList], .file (.text []))]
  workingDirectory := []
  nodup := by decide

theorem properNames_twoDirectories : twoDirectories.ProperNames := by
  have hall : ∀ x ∈ twoDirectories.entries, ∀ n ∈ x.1, Path.Proper n := by decide
  intro l e h
  exact hall (l, e) h

theorem discover_twoDirectories :
    discover twoDirectories ["a".toList, "b".toList] "carinata".toList =
      .ok [⟨"a".toList, "a/x.carinata".toList⟩, ⟨"a".toList, "a/y.carinata".toList⟩,
        ⟨"b".toList, "b/x.carinata".toList⟩] := by
  cbv

/-- The two specs of one directory go to different modules. The two of the same name do not. -/
theorem output_eq_iff_relative_twoDirectories :
    ((SpecFile.mk "a".toList "a/x.carinata".toList).output "out".toList).components ≠
      ((SpecFile.mk "a".toList "a/y.carinata".toList).output "out".toList).components ∧
    ((SpecFile.mk "a".toList "a/x.carinata".toList).output "out".toList).components =
      ((SpecFile.mk "b".toList "b/x.carinata".toList).output "out".toList).components := by
  have hspecs := discover_twoDirectories
  constructor
  · exact (output_eq_iff_relative properNames_twoDirectories hspecs (by simp) (by simp) _).2 rfl
      (by decide)
  · exact (output_eq_iff_relative properNames_twoDirectories hspecs (by simp) (by simp) _).1.mpr
      (by decide)

/-- Specs of one batch, at different paths, with the same module. -/
theorem specs_of_two_directories_share_module :
    discover twoDirectories ["a".toList, "b".toList] "carinata".toList =
      .ok [⟨"a".toList, "a/x.carinata".toList⟩, ⟨"a".toList, "a/y.carinata".toList⟩,
        ⟨"b".toList, "b/x.carinata".toList⟩] ∧
    Path.components "a/x.carinata".toList ≠ Path.components "b/x.carinata".toList ∧
    (SpecFile.mk "a".toList "a/x.carinata".toList).output "out".toList = "out/x.py".toList ∧
    (SpecFile.mk "b".toList "b/x.carinata".toList).output "out".toList = "out/x.py".toList :=
  ⟨discover_twoDirectories, by decide, by decide, by decide⟩

end SpecFile

end BlockSpec
