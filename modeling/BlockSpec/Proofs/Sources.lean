import BlockSpec.Proofs.Place

/-! # Files that are no modules

Working on a suite makes directories, writes modules and removes modules. All other files, the
sources, stay as they are, and so do directories:

    sources    the files that are no modules, as they are stored
    Spares     the same sources, and every directory is still there

Specs are sources as long as their extension is not that of modules. So what is found under some
directories is the same afterwards, spec by spec and in the same order, and every spec reads as
before. -/

namespace BlockSpec

namespace Path

/-- The pieces of a path that say something. -/
def words (p : Path) : List Text := (Text.pieces '/' p).filter (!isIdle ·)

variable {p : Path} {n : Text}

theorem words_eq_filter_cut (p : Path) : (cut p).2.filter (!isIdle ·) = words p := by
  unfold cut words
  split
  · rename_i heq
    rw [heq]
    exact (List.filter_cons_of_neg (by decide)).symm
  · rename_i heq
    rw [heq]
    exact (List.filter_cons_of_neg (by decide)).symm
  · rfl

theorem components_eq (p : Path) : components p = (cut p).1.toList ++ (words p).map meaning := by
  rw [components, words_eq_filter_cut]

/-- The file name is the last word of a path. -/
theorem words_of_fileName? (h : fileName? p = some n) : ∃ front, words p = front ++ [n] := by
  obtain ⟨hmem, hidle, -⟩ := mem_cut_of_fileName? h
  have hne : words p ≠ [] := by
    rw [← words_eq_filter_cut]
    exact List.ne_nil_of_mem (List.mem_filter.mpr ⟨hmem, by simp [hidle]⟩)
  obtain ⟨front, last, heq⟩ := (List.eq_nil_or_concat (words p)).resolve_left hne
  rw [List.concat_eq_append] at heq
  refine ⟨front, ?_⟩
  rw [fileName?, components_eq, heq, List.map_append, ← List.append_assoc, List.map_singleton,
    List.getLast?_concat] at h
  unfold meaning at h
  split at h
  · rename_i hlast
    split at hlast
    · cases hlast
    · obtain rfl := Component.name.inj (Option.some.inj hlast)
      rw [heq, ← Option.some.inj h]
  · cases h

end Path

namespace FileSystem

variable {fs fs' fs'' : FileSystem} {l : Location} {e : Entry} {c : Content} {p root : Path}
  {n ext : Text}

/-- Idle pieces do not matter for where a path leads. -/
theorem place_eq_words (fs : FileSystem) (p : Path) : fs.place p =
    (Path.words p).foldl stepTo (if Path.isAbsolute p then [] else fs.workingDirectory) := by
  unfold place Path.steps Path.words
  generalize Text.pieces '/' p = pieces
  generalize (if Path.isAbsolute p then [] else fs.workingDirectory) = origin
  induction pieces generalizing origin with
  | nil => rfl
  | cons x pieces ih =>
    by_cases hx : x = []
    · simp [hx, Path.isIdle, ih]
    · by_cases hdot : x = ['.']
      · simp [hdot, Path.isIdle, stepTo, ih]
      · simp [hx, hdot, Path.isIdle, ih]

/-- A path with a file name leads to that name. -/
theorem place_of_fileName? (fs : FileSystem) (h : Path.fileName? p = some n) :
    ∃ o, fs.place p = o ++ [n] := by
  obtain ⟨front, hwords⟩ := Path.words_of_fileName? h
  have hproper := Path.proper_of_fileName? h
  rw [place_eq_words, hwords, List.foldl_append, List.foldl_cons, List.foldl_nil, stepTo,
    if_neg hproper.ne_here, if_neg hproper.ne_up]
  exact ⟨_, rfl⟩

/-- The place of a file with another extension is no place of a module. -/
theorem isModule_place (fs : FileSystem) (h : Path.extension? p = some ext)
    (hext : ext ≠ Path.moduleExtension) : isModule (fs.place p) = false := by
  rw [Path.extension?, Option.bind_eq_some_iff] at h
  obtain ⟨n, hname, hsplit⟩ := h
  obtain ⟨o, ho⟩ := fs.place_of_fileName? hname
  rw [ho, isModule_concat, hsplit]
  simp [hext]

/-! ### Sources -/

/-- Whether an entry is a file that is no module. -/
def isSource : Location × Entry → Bool
  | (l, .file _) => !isModule l
  | _ => false

/-- The files that are no modules, as they are stored. -/
def sources (fs : FileSystem) : List (Location × Entry) := fs.entries.filter isSource

theorem get?_of_mem_entries (hl : l ≠ []) (h : (l, e) ∈ fs.entries) : fs.get? l = some e := by
  obtain ⟨before, after, heq⟩ := List.append_of_mem h
  have hnodup := fs.nodup
  rw [heq, List.map_append, List.map_cons, List.nodup_append] at hnodup
  rw [get?, if_neg hl]
  refine List.lookup_eq_some_iff.mpr ⟨before, after, heq, ?_⟩
  rintro ⟨m, e'⟩ hm
  have hne := hnodup.2.2 m (List.mem_map_of_mem (f := (·.1)) hm) l List.mem_cons_self
  simpa using Ne.symm hne

/-- Equal sources are the same files. -/
theorem get?_of_sources_eq (h : fs'.sources = fs.sources) (hl : isModule l = false)
    (hget : fs.get? l = some (.file c)) : fs'.get? l = some (.file c) := by
  have hne : l ≠ [] := by
    rintro rfl
    cases hget
  have hmem : (l, .file c) ∈ fs.sources :=
    List.mem_filter.mpr ⟨mem_entries hne hget, by simp [isSource, hl]⟩
  rw [← h] at hmem
  exact get?_of_mem_entries hne (List.mem_filter.mp hmem).1

/-- Erasing what is no source leaves the sources alone. -/
theorem sources_erase (h : ∀ e, (l, e) ∈ fs.entries → isSource (l, e) = false) :
    (fs.erase l).sources = fs.sources := by
  simp only [sources, erase, keep, List.filter_filter]
  refine List.filter_congr ?_
  rintro ⟨m, e⟩ hm
  by_cases hml : m = l
  · subst hml
    simp [h e hm]
  · simp [hml]

/-- So does putting what is no source in the place of what is none. -/
theorem sources_put (h : ∀ e, (l, e) ∈ fs.entries → isSource (l, e) = false)
    (he : isSource (l, e) = false) : (fs.put l e).sources = fs.sources := by
  rw [← sources_erase h]
  exact List.filter_cons_of_neg (by simp [he])

theorem isSource_eq_false_of_isModule (hl : isModule l = true) (e : Entry) :
    isSource (l, e) = false := by
  cases e <;> simp [isSource, hl]

/-! ### What runs leave alone -/

/-- Directories stay, and so do all files that are no modules. -/
structure Spares (fs fs' : FileSystem) : Prop where
  workingDirectory : fs'.workingDirectory = fs.workingDirectory
  directories : ∀ l, fs.get? l = some .directory → fs'.get? l = some .directory
  sources : fs'.sources = fs.sources
  plain : fs'.Plain

theorem Plain.spares_refl (hfs : fs.Plain) : fs.Spares fs :=
  ⟨rfl, fun _ h => h, rfl, hfs⟩

theorem Spares.trans (h : fs.Spares fs') (h' : fs'.Spares fs'') : fs.Spares fs'' :=
  ⟨h'.workingDirectory.trans h.workingDirectory, fun l hl => h'.directories l (h.directories l hl),
    h'.sources.trans h.sources, h'.plain⟩

theorem Plain.spares_makeDirectory (hfs : fs.Plain) (h : fs.makeDirectory p = .ok fs') :
    fs.Spares fs' := by
  have hext := hfs.extends_makeDirectory h
  refine ⟨hext.workingDirectory, fun l hl => hext.keeps l _ hl, ?_, hext.plain⟩
  obtain ⟨o, n, rfl, hnone, -⟩ := hfs.makeDirectory_eq h
  refine sources_put (fun e he => ?_) rfl
  rw [get?_of_mem_entries (by simp) he] at hnone
  cases hnone

theorem Plain.spares_makeDirectories (hfs : fs.Plain) (d : Denials) (p : Path) :
    fs.Spares (d.makeDirectories fs p).1 :=
  makeDirectories_induction
    (fun _ _ _ h hmake => h.trans (h.plain.spares_makeDirectory hmake)) hfs.spares_refl d p

/-- Writing a module. -/
theorem Plain.spares_write (hfs : fs.Plain) (hout : Path.IsOutput root p)
    (h : fs.write p c = .ok fs') : fs.Spares fs' := by
  obtain ⟨found, hfind, hfile⟩ := exists_find_of_write h
  have hmodule := (hfs.find_output hout hfind).resolve_right fun ⟨l, hl⟩ => hfile l hl
  obtain ⟨rfl, hplain, hne, hdir⟩ := hfs.write_eq h
  refine ⟨rfl, fun l hl => ?_, ?_, hplain⟩
  · rwa [get?_put_of_ne fs]
    rintro rfl
    exact hdir hl
  · exact sources_put (fun e _ => isSource_eq_false_of_isModule hmodule.2 e)
      (isSource_eq_false_of_isModule hmodule.2 _)

/-- Removing a module. -/
theorem Plain.spares_removeFile (hfs : fs.Plain) (hout : Path.IsOutput root p)
    (h : fs.removeFile p = .ok fs') : fs.Spares fs' := by
  obtain ⟨found, hfind, hfile⟩ := exists_find_of_removeFile h
  have hmodule := (hfs.find_output hout hfind).resolve_right fun ⟨l, hl⟩ => hfile l hl
  have hleads := hfs.find_leads hfind
  obtain ⟨rfl, hplain, hne⟩ := hfs.removeFile_eq h
  refine ⟨rfl, fun l hl => ?_, ?_, hplain⟩
  · rwa [get?_erase_of_ne fs]
    rintro rfl
    cases hleads with
    | entry he =>
      rw [hl] at he
      exact hfile _ (by rw [← Option.some.inj he])
    | free _ _ _ hnone => rw [hl] at hnone; cases hnone
  · exact sources_erase fun e _ => isSource_eq_false_of_isModule hmodule.2 e

namespace Spares

theorem get? (h : fs.Spares fs') (hl : isModule l = false) (hget : fs.get? l = some (.file c)) :
    fs'.get? l = some (.file c) := get?_of_sources_eq h.sources hl hget

theorem place_eq (h : fs.Spares fs') (p : Path) : fs'.place p = fs.place p :=
  place_congr h.workingDirectory p

/-- Sources read as before. -/
theorem readText (h : fs.Spares fs') (hfs : fs.Plain) (hp : isModule (fs.place p) = false)
    {t : Text} (hread : fs.readText p = .ok t) : fs'.readText p = .ok t :=
  hfs.readText_mono h.plain h.workingDirectory h.directories hread
    (h.get? hp (hfs.get?_of_readText hread))

end Spares

end FileSystem

/-! ### The same specs are found -/

theorem mapM_ok_of_imp {ε α β : Type} {f g : α → Except ε β}
    (himp : ∀ a b, f a = .ok b → g a = .ok b) : ∀ {l : List α} {bs : List β},
      l.mapM f = .ok bs → l.mapM g = .ok bs
  | [], _, h => h
  | a :: l, bs, h => by
    rw [List.mapM_cons] at h ⊢
    cases ha : f a with
    | error e => rw [ha] at h; cases h
    | ok x =>
      cases hl : l.mapM f with
      | error e => rw [ha, hl] at h; cases h
      | ok xs =>
        rw [ha, hl] at h
        rw [himp a x ha, mapM_ok_of_imp himp hl]
        exact h

namespace SpecFile

open FileSystem

variable {fs fs' : FileSystem} {dir : Path} {ext : Text} {dirs : List Path}
  {specs : List SpecFile} {spec : SpecFile}

/-- The path of a file below a directory, if it has the right extension. -/
def specBelow? (ext : Text) (dir : Path) (l : Location) : Location × Entry → Option Path
  | (m, .file _) => ((below? l m).map fun names => names.foldl Path.join dir).filter
      (Path.extension? · == some ext)
  | _ => none

/-- A module is no spec. -/
theorem specBelow?_eq_none (hext : ext ≠ Path.moduleExtension) {l m : Location} {e : Entry}
    (hproper : ∀ n ∈ m, Path.Proper n) (hm : isSource (m, e) = false) :
    specBelow? ext dir l (m, e) = none := by
  cases e with
  | directory => rfl
  | link target => rfl
  | file c =>
    have hmodule : isModule m = true := by simpa [isSource] using hm
    rw [specBelow?, Option.filter_eq_none_iff]
    intro p hp
    obtain ⟨names, hbelow, rfl⟩ := Option.map_eq_some_iff.mp hp
    obtain ⟨rfl, hne⟩ := append_of_below? hbelow
    -- the last name alone decides about the extension, of the location and of the path
    obtain ⟨front, n, rfl⟩ := (List.eq_nil_or_concat names).resolve_left hne
    rw [List.concat_eq_append] at hproper hmodule ⊢
    rw [← List.append_assoc, isModule_concat, beq_iff_eq] at hmodule
    obtain ⟨-, hnames⟩ := List.forall_mem_append.mp hproper
    obtain ⟨hfront, hn⟩ := List.forall_mem_append.mp hnames
    have hn : Path.Proper n := List.forall_mem_singleton.mp hn
    have hextension : Path.extension? ((front ++ [n]).foldl Path.join dir) =
        some Path.moduleExtension := by
      rw [Path.extension?, Path.fileName?_foldl_join hfront hn, Option.bind_some, hmodule]
    rw [hextension, beq_iff_eq]
    exact fun h => hext (Option.some.inj h).symm

/-- The specs below a location can be told from the sources. -/
theorem filterMap_specBelow? (hfs : fs.ProperNames) (hext : ext ≠ Path.moduleExtension)
    (dir : Path) (l : Location) :
    fs.entries.filterMap (specBelow? ext dir l) = fs.sources.filterMap (specBelow? ext dir l) := by
  rw [sources, List.filterMap_filter]
  refine List.filterMap_congr ?_
  rintro ⟨m, e⟩ hm
  cases hs : isSource (m, e) with
  | true => rfl
  | false => exact specBelow?_eq_none hext (hfs m e hm) hs

/-- What is collected from below a location and has the right extension. -/
theorem filter_collected {f : List Text × Entry → Option Path}
    (hf : ∀ names e, f (names, e) = match e with
      | .file _ => some (names.foldl Path.join dir)
      | _ => none) (l : Location) :
    ((fs.under l).filterMap f).filter (Path.extension? · == some ext) =
      fs.entries.filterMap (specBelow? ext dir l) := by
  rw [FileSystem.under, List.filterMap_filterMap, List.filter_filterMap]
  refine List.filterMap_congr ?_
  rintro ⟨m, e⟩ -
  cases e with
  | file c => cases hm : below? l m <;> simp [specBelow?, hm, hf]
  | directory => cases hm : below? l m <;> simp [specBelow?, hm, hf]
  | link target => cases hm : below? l m <;> simp [specBelow?, hm, hf]

/-- Where nothing but modules has changed, the same specs are found under a directory. -/
theorem under_of_spares (hfs : fs.Plain) (h : fs.Spares fs') (hext : ext ≠ Path.moduleExtension)
    (hfiles : ∀ l c, fs.get? l = some (.file c) → ∃ c', fs'.get? l = some (.file c'))
    {found : List SpecFile} (hunder : under fs ext dir = .ok found) :
    under fs' ext dir = .ok found := by
  unfold under filesUnder at hunder ⊢
  cases hfind : fs.find false dir with
  | error e => rw [hfind] at hunder; cases hunder
  | ok way =>
    have hmono : ∀ e, fs'.get? (fs.place dir) = some e →
        fs'.find false dir = .ok (.at (fs.place dir) e) :=
      fun e he => hfs.find_mono h.plain h.workingDirectory h.directories hfind he
    rw [hfind] at hunder
    cases hfs.find_leads hfind with
    | @entry e he =>
      cases e with
      | directory =>
        -- both searches go through the sources, and these are stored in the same order
        rw [hmono _ (h.directories _ he)]
        simp only at hunder ⊢
        rw [filter_collected (fun _ _ => rfl), filterMap_specBelow? hfs.names hext] at hunder
        rw [filter_collected (fun _ _ => rfl), filterMap_specBelow? h.plain.names hext, h.sources]
        exact hunder
      | file c =>
        obtain ⟨c', hc'⟩ := hfiles _ _ he
        rw [hmono _ hc']
        exact hunder
      | link target => exact absurd he (hfs.no_links _ _)
    | free _ _ _ _ => cases hunder

/-- And under many. -/
theorem discover_of_spares (hfs : fs.Plain) (h : fs.Spares fs') (hext : ext ≠ Path.moduleExtension)
    (hfiles : ∀ l c, fs.get? l = some (.file c) → ∃ c', fs'.get? l = some (.file c'))
    (hfound : discover fs dirs ext = .ok specs) : discover fs' dirs ext = .ok specs := by
  obtain ⟨found, hmapM, rfl⟩ := exists_of_map_eq_ok hfound
  rw [discover, mapM_ok_of_imp (fun _ _ => under_of_spares hfs h hext hfiles) hmapM]
  rfl

/-- What is below the place of a directory stands at the place of its path. -/
theorem get?_place_of_mem_under (hfs : fs.ProperNames) {names : List Text} {e : Entry}
    (hunder : (names, e) ∈ fs.under (fs.place dir)) :
    fs.get? (fs.place (names.foldl Path.join dir)) = some e := by
  obtain ⟨hne, hproper⟩ := hfs.of_mem_under hunder
  obtain ⟨⟨m, e⟩, hmem, hbelow⟩ := List.mem_filterMap.mp hunder
  obtain ⟨rest, hrest, heq⟩ := Option.map_eq_some_iff.mp hbelow
  obtain ⟨rfl, rfl⟩ := Prod.mk.inj heq
  obtain ⟨rfl, -⟩ := append_of_below? hrest
  rw [fs.place_foldl_join hne hproper]
  exact get?_of_mem_entries (by simp [hne]) hmem

/-- A spec that is found is a file at the place of its path. -/
theorem get?_place_of_mem_discover (hfs : fs.Plain) (hfound : discover fs dirs ext = .ok specs)
    (hspec : spec ∈ specs) : ∃ c, fs.get? (fs.place spec.path) = some (.file c) := by
  obtain ⟨-, -, paths, hfiles, hp⟩ := of_mem_discover hfound hspec
  unfold filesUnder at hfiles
  cases hfind : fs.find false spec.root with
  | error e => rw [hfind] at hfiles; cases hfiles
  | ok way =>
    rw [hfind] at hfiles
    cases hfs.find_leads hfind with
    | @entry e he =>
      cases e with
      | directory =>
        obtain rfl := Except.ok.inj hfiles
        obtain ⟨⟨names, e⟩, hunder, hpath⟩ := List.mem_filterMap.mp hp
        cases e with
        | directory => cases hpath
        | link target => cases hpath
        | file c =>
          rw [← Option.some.inj hpath]
          exact ⟨c, get?_place_of_mem_under hfs.names hunder⟩
      | file c =>
        obtain rfl := Except.ok.inj hfiles
        rw [List.mem_singleton.mp hp]
        exact ⟨c, he⟩
      | link target => exact absurd he (hfs.no_links _ _)
    | free _ _ _ _ => cases hfiles

end SpecFile

end BlockSpec
