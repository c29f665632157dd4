import BlockSpec.Proofs.Separation
import Mathlib.Data.List.Lex
import Mathlib.Data.List.Perm.Basic
import Mathlib.Data.Prod.Lex

/-! # The order of discovery

Specs are found by a walk from each of the given directories, and a walk comes to files in no fixed
order. What is found is sorted by path, and by nothing else:

    directories    0: s        1: s/deep      2: s
    found          s/deep/b₀   s/a₀           s/deep/b₁           s/a₂   s/deep/b₂
    sorted         s/a₀   s/a₂   s/deep/b₀   s/deep/b₁   s/deep/b₂

Entries of equal path are left in the order in which they were found. No walk comes to a path twice,
so they come from different places in the list of directories, and that is their order. Together
paths and places order all entries strictly. There is one list only that is ordered so, whichever
way the walks went. -/

namespace BlockSpec

/-! ### Paths in order -/

theorem cons_le_cons_iff {α : Type} [LinearOrder α] {a b : α} {s t : List α} :
    a :: s ≤ b :: t ↔ a < b ∨ a = b ∧ s ≤ t := by
  rw [← not_lt, List.cons_lt_cons_iff, ← not_lt]
  rcases lt_trichotomy a b with h | rfl | h
  · simp [h, h.not_gt, h.ne']
  · simp
  · simp [h, h.not_gt, h.ne']

theorem nil_le {α : Type} [LinearOrder α] (t : List α) : [] ≤ t :=
  not_lt.mp (List.not_lt_nil t)

namespace Component

/-- Components are ordered by what they are, and names by their characters. -/
def rank : Component → ℕ ×ₗ List ℕ
  | top => toLex (0, [])
  | here => toLex (1, [])
  | up => toLex (2, [])
  | name n => toLex (3, n.map Char.toNat)

theorem rank_injective : Function.Injective rank := by
  have hname : Function.Injective (List.map Char.toNat) :=
    List.map_injective_iff.mpr fun _ _ h => Char.toNat_inj.mp h
  intro c d h
  cases c <;> cases d <;> simp_all [rank, hname.eq_iff]

theorem textLE_iff : ∀ {s t : Text}, textLE s t = true ↔ s.map Char.toNat ≤ t.map Char.toNat
  | [], t => by simp [textLE, nil_le]
  | a :: s, [] => by simp [textLE]
  | a :: s, b :: t => by
    rw [textLE, List.map_cons, List.map_cons, cons_le_cons_iff]
    split
    · rename_i heq
      simp [heq, textLE_iff (s := s) (t := t)]
    · rename_i hne
      have hcode : a.toNat ≠ b.toNat := fun heq => hne (Char.toNat_inj.mp heq)
      simp [hcode]

theorem le_iff {c d : Component} : le c d = true ↔ c.rank ≤ d.rank := by
  cases c <;> cases d <;> simp [le, rank, textLE_iff, Prod.Lex.toLex_le_toLex]

theorem listLE_iff : ∀ {s t : List Component}, listLE s t = true ↔ s.map rank ≤ t.map rank
  | [], t => by simp [listLE, nil_le]
  | a :: s, [] => by simp [listLE]
  | a :: s, b :: t => by
    rw [listLE, List.map_cons, List.map_cons, cons_le_cons_iff]
    split
    · rename_i heq
      simp [heq, listLE_iff (s := s) (t := t)]
    · rename_i hne
      have hrank : a.rank ≠ b.rank := fun heq => hne (rank_injective heq)
      simp [hrank, le_iff, le_iff_lt_or_eq]

end Component

namespace Path

variable {p q : Path}

/-- Paths are ordered as the lists of their components are, component by component. -/
theorem le_iff : le p q = true ↔
    p.components.map Component.rank ≤ q.components.map Component.rank :=
  Component.listLE_iff

theorem trans_le (p q r : Path) (hpq : le p q = true) (hqr : le q r = true) : le p r = true :=
  le_iff.mpr ((le_iff.mp hpq).trans (le_iff.mp hqr))

theorem le_or_le (p q : Path) : (le p q || le q p) = true := by
  rw [Bool.or_eq_true, le_iff, le_iff]
  exact le_total _ _

theorem le_and_le_iff : le p q = true ∧ le q p = true ↔ p.components = q.components := by
  rw [le_iff, le_iff, ← le_antisymm_iff]
  exact (List.map_injective_iff.mpr Component.rank_injective).eq_iff

end Path

theorem pairwise_snd_zipIdx {α : Type} (l : List α) : l.zipIdx.Pairwise fun x y => x.2 ≠ y.2 := by
  have hnodup : (l.zipIdx.map Prod.snd).Nodup := by
    rw [List.zipIdx_map_snd]
    exact List.nodup_range'
  exact List.pairwise_map.mp hnodup

/-- Sorting is stable: what is equal in order stays as it was. -/
theorem pairwise_mergeSort_stable {α : Type} {le : α → α → Bool} {R : α → α → Prop}
    (htrans : ∀ a b c, le a b = true → le b c = true → le a c = true)
    (htotal : ∀ a b, (le a b || le b a) = true) {l : List α} (h : l.Pairwise R) :
    (l.mergeSort le).Pairwise fun a b => le a b = true ∧ (le b a = true → R a b) := by
  -- among elements with their places in the list, those of equal order are sorted by place
  have hsorted := List.pairwise_mergeSort (List.zipIdxLE_trans htrans)
    (List.zipIdxLE_total htotal) l.zipIdx
  have hperm := List.mergeSort_perm l.zipIdx (List.zipIdxLE le)
  have hplaces : (l.zipIdx.mergeSort (List.zipIdxLE le)).Pairwise fun x y => x.2 ≠ y.2 :=
    (hperm.pairwise_iff Ne.symm).mpr (pairwise_snd_zipIdx l)
  have hat : ∀ x ∈ l.zipIdx.mergeSort (List.zipIdxLE le), l[x.2]? = some x.1 :=
    fun x hx => List.mem_zipIdx_iff_getElem?.mp (hperm.mem_iff.mp hx)
  rw [← List.mergeSort_zipIdx, List.pairwise_map]
  refine (hsorted.and hplaces).imp_of_mem fun {x y} hx hy hxy => ?_
  obtain ⟨hle, hne⟩ := hxy
  simp only [List.zipIdxLE] at hle
  split at hle
  · rename_i hxy
    refine ⟨hxy, fun hyx => ?_⟩
    rw [if_pos hyx, decide_eq_true_iff] at hle
    obtain ⟨hi, hx⟩ := List.getElem?_eq_some_iff.mp (hat x hx)
    obtain ⟨hj, hy⟩ := List.getElem?_eq_some_iff.mp (hat y hy)
    rw [← hx, ← hy]
    exact List.pairwise_iff_getElem.mp h _ _ hi hj (lt_of_le_of_ne hle hne)
  · cases hle

/-! ### Files below a directory -/

namespace SpecFile

open FileSystem

variable {fs fs' : FileSystem} {ext : Text} {dir : Path} {dirs : List Path} {m m' : Location}
  {names : List Text} {paths : List Path} {walks : List (List Path)}

/-- A file at or below a directory, under a name with the extension. -/
structure IsSpecUnder (fs : FileSystem) (ext : Text) (dir : Path) (m : Location) : Prop where
  below : fs.place dir <+: m
  file : ∃ c, fs.get? m = some (.file c)
  extension : ∃ n, m.getLast? = some n ∧ (Path.splitName n).2 = some ext

/-- The path by which a walk from a directory comes to a location. -/
def pathTo (fs : FileSystem) (dir : Path) (m : Location) : Path :=
  (m.drop (fs.place dir).length).foldl Path.join dir

theorem pathTo_append (fs : FileSystem) (dir : Path) (names : List Text) :
    pathTo fs dir (fs.place dir ++ names) = names.foldl Path.join dir := by
  rw [pathTo, List.drop_left]

theorem pathTo_place (fs : FileSystem) (dir : Path) : pathTo fs dir (fs.place dir) = dir := by
  rw [pathTo, List.drop_length, List.foldl_nil]

/-- Either a file was given in place of a directory, or it is reached from there by names. -/
theorem IsSpecUnder.eq_or_below (hfs : fs.Plain) (h : IsSpecUnder fs ext dir m) :
    m = fs.place dir ∨ fs.get? (fs.place dir) = some .directory ∧ ∃ names,
      m = fs.place dir ++ names ∧ names ≠ [] ∧ ∀ n ∈ names, Path.Proper n := by
  obtain ⟨names, rfl⟩ := h.below
  obtain ⟨c, hc⟩ := h.file
  by_cases hne : names = []
  · exact .inl (by rw [hne, List.append_nil])
  · have hmem := mem_entries (by simp [hne]) hc
    exact .inr ⟨hfs.get?_of_append hc hne, names, rfl, hne,
      fun n hn => hfs.names _ _ hmem n (List.mem_append_right _ hn)⟩

/-- The path of a file leads to it. -/
theorem IsSpecUnder.place_pathTo (hfs : fs.Plain) (h : IsSpecUnder fs ext dir m) :
    fs.place (pathTo fs dir m) = m := by
  rcases h.eq_or_below hfs with rfl | ⟨-, names, rfl, hne, hnames⟩
  · rw [pathTo_place]
  · rw [pathTo_append, fs.place_foldl_join hne hnames]

/-- No walk comes to a path twice. -/
theorem IsSpecUnder.eq_of_components (hfs : fs.Plain) (h : IsSpecUnder fs ext dir m)
    (h' : IsSpecUnder fs ext dir m')
    (heq : (pathTo fs dir m).components = (pathTo fs dir m').components) : m = m' := by
  rcases h.eq_or_below hfs with rfl | ⟨hdir, names, rfl, hne, hnames⟩
  · rcases h'.eq_or_below hfs with rfl | ⟨hdir, -⟩
    · rfl
    · -- what is below a file
      obtain ⟨c, hc⟩ := h.file
      rw [hdir] at hc
      cases hc
  · rcases h'.eq_or_below hfs with rfl | ⟨-, names', rfl, hne', hnames'⟩
    · obtain ⟨c, hc⟩ := h'.file
      rw [hdir] at hc
      cases hc
    · obtain ⟨front, hfront⟩ := Path.components_open_names (Path.open_opened dir)
      have hcomponents : ∀ {names : List Text}, names ≠ [] → (∀ n ∈ names, Path.Proper n) →
          (pathTo fs dir (fs.place dir ++ names)).components =
            front ++ names.map Path.meaning := by
        intro names hne hnames
        rw [pathTo_append, Path.foldl_join_opened hne hnames]
        exact hfront names hne fun n hn => ⟨(hnames n hn).no_slash, (hnames n hn).isIdle⟩
      rw [hcomponents hne hnames, hcomponents hne' hnames'] at heq
      rw [List.map_injective_iff.mpr Path.meaning_injective (List.append_cancel_left heq)]

/-- A path that leads to a file ends in a name. -/
theorem exists_fileName?_of_find (hfs : fs.Plain) {followLast : Bool} {l : Location} {c : Content}
    (h : fs.find followLast dir = .ok (.at l (.file c))) : ∃ n, Path.fileName? dir = some n := by
  obtain ⟨⟨hne, -⟩, hwalk⟩ := find_eq_ok_iff.mp h
  obtain ⟨front, last, hnames⟩ := (List.eq_nil_or_concat (namesOf dir)).resolve_left
    (namesOf_ne_nil hne)
  rw [List.concat_eq_append] at hnames
  rw [hnames] at hwalk
  have hstays : last ≠ ['.'] ∧ last ≠ ['.', '.'] := by
    constructor <;> rintro rfl
    · obtain ⟨_, hdir⟩ := hfs.walk_stays (.inl rfl) hwalk
      cases hdir
    · obtain ⟨_, hdir⟩ := hfs.walk_stays (.inr rfl) hwalk
      cases hdir
  have hsteps : (Text.pieces '/' dir).filter (!·.isEmpty) = front ++ [last] := by
    rw [namesOf] at hnames
    split at hnames
    · exact absurd (List.append_inj_right' hnames rfl) (by simpa using hstays.1.symm)
    · rwa [List.append_nil] at hnames
  have hlast : last ≠ [] := by
    have hmem : last ∈ (Text.pieces '/' dir).filter (!·.isEmpty) := by simp [hsteps]
    simpa using (List.mem_filter.mp hmem).2
  have hwords : Path.words dir = front.filter (!Path.isIdle ·) ++ [last] := by
    have hfilter : Path.words dir =
        ((Text.pieces '/' dir).filter (!·.isEmpty)).filter (!Path.isIdle ·) := by
      rw [Path.words, List.filter_filter]
      refine List.filter_congr fun n _ => ?_
      cases hn : n.isEmpty <;> simp [Path.isIdle, hn]
    have hidle : Path.isIdle last = false := by simp [Path.isIdle, hlast, hstays.1]
    rw [hfilter, hsteps, List.filter_append, List.filter_cons_of_pos (by simp [hidle]),
      List.filter_nil]
  refine ⟨last, ?_⟩
  rw [Path.fileName?, Path.components_eq, hwords, List.map_append, ← List.append_assoc,
    List.map_singleton, List.getLast?_concat, Path.meaning, if_neg hstays.2]

theorem below?_append : ∀ (l : Location), names ≠ [] → below? l (l ++ names) = some names
  | [], hne => by simp [below?, hne]
  | a :: l, hne => by
    rw [List.cons_append, below?, if_pos rfl]
    exact below?_append l hne

/-- What a walk finds below a directory. -/
theorem specBelow?_eq_some_iff (hfs : fs.Plain) (hdir : fs.get? (fs.place dir) = some .directory)
    {x : Location × Entry} (hx : x ∈ fs.entries) {p : Path} :
    specBelow? ext dir (fs.place dir) x = some p ↔
      IsSpecUnder fs ext dir x.1 ∧ p = pathTo fs dir x.1 := by
  obtain ⟨m, e⟩ := x
  have hextension : ∀ {names : List Text}, names ≠ [] → (∀ n ∈ names, Path.Proper n) →
      (Path.extension? (names.foldl Path.join dir) = some ext ↔
        ∃ n, (fs.place dir ++ names).getLast? = some n ∧ (Path.splitName n).2 = some ext) := by
    intro names hne hnames
    obtain ⟨front, n, rfl⟩ := (List.eq_nil_or_concat names).resolve_left hne
    rw [List.concat_eq_append] at hnames ⊢
    obtain ⟨hfront, hn⟩ := List.forall_mem_append.mp hnames
    rw [Path.extension?, Path.fileName?_foldl_join hfront (List.forall_mem_singleton.mp hn),
      ← List.append_assoc, List.getLast?_concat]
    simp
  constructor
  · intro h
    cases e with
    | directory => cases h
    | link target => cases h
    | file c =>
      obtain ⟨hp, hext⟩ := Option.filter_eq_some_iff.mp h
      obtain ⟨names, hbelow, rfl⟩ := Option.map_eq_some_iff.mp hp
      obtain ⟨rfl, hne⟩ := append_of_below? hbelow
      have hnames : ∀ n ∈ names, Path.Proper n :=
        fun n hn => hfs.names _ _ hx n (List.mem_append_right _ hn)
      exact ⟨⟨List.prefix_append _ _, ⟨c, get?_of_mem_entries (by simp [hne]) hx⟩,
        (hextension hne hnames).mp (beq_iff_eq.mp hext)⟩, (pathTo_append fs dir names).symm⟩
  · rintro ⟨hspec, rfl⟩
    obtain ⟨c, hc⟩ := hspec.file
    rcases hspec.eq_or_below hfs with rfl | ⟨-, names, rfl, hne, hnames⟩
    · rw [hdir] at hc
      cases hc
    · have he := get?_of_mem_entries (by simp [hne]) hx
      obtain rfl : e = .file c := Option.some.inj (he.symm.trans hc)
      rw [specBelow?, below?_append _ hne, pathTo_append, Option.map_some, Option.filter_some,
        if_pos (beq_iff_eq.mpr ((hextension hne hnames).mpr hspec.extension))]

/-- A walk lists the files that it should, each once. -/
structure IsListOf (fs : FileSystem) (ext : Text) (dir : Path) (paths : List Path)
    (ms : List Location) : Prop where
  nodup : ms.Nodup
  mem : ∀ m, m ∈ ms ↔ IsSpecUnder fs ext dir m
  paths : paths.filter (Path.extension? · == some ext) = ms.map (pathTo fs dir)

theorem exists_list_below (hfs : fs.Plain) (hdir : fs.get? (fs.place dir) = some .directory)
    (hpaths : paths.filter (Path.extension? · == some ext) =
      fs.entries.filterMap (specBelow? ext dir (fs.place dir))) :
    ∃ ms, IsListOf fs ext dir paths ms := by
  have hsome : ∀ x ∈ fs.entries, (specBelow? ext dir (fs.place dir) x).isSome = true ↔
      IsSpecUnder fs ext dir x.1 := by
    intro x hx
    rw [Option.isSome_iff_exists]
    simp [specBelow?_eq_some_iff hfs hdir hx]
  refine ⟨(fs.entries.filter fun x => (specBelow? ext dir (fs.place dir) x).isSome).map (·.1),
    fs.nodup.sublist (List.filter_sublist.map _), fun m => ?_, ?_⟩
  · rw [List.mem_map]
    constructor
    · rintro ⟨x, hx, rfl⟩
      obtain ⟨hx, hspec⟩ := List.mem_filter.mp hx
      exact (hsome x hx).mp hspec
    · intro hspec
      obtain ⟨c, hc⟩ := hspec.file
      have hne : m ≠ [] := by
        rintro rfl
        cases hc
      have hmem := mem_entries hne hc
      exact ⟨_, List.mem_filter.mpr ⟨hmem, (hsome _ hmem).mpr hspec⟩, rfl⟩
  · rw [hpaths, List.map_map, ← List.filterMap_eq_map, List.filterMap_filter]
    refine List.filterMap_congr fun x hx => ?_
    cases hp : specBelow? ext dir (fs.place dir) x with
    | none => rfl
    | some p =>
      obtain ⟨-, rfl⟩ := (specBelow?_eq_some_iff hfs hdir hx).mp hp
      rfl

/-- A file that is given in place of a directory is all that there is. -/
theorem exists_list_file (hfs : fs.Plain) {l : Location} {c : Content}
    (hfind : fs.find false dir = .ok (.at l (.file c)))
    (hc : fs.get? (fs.place dir) = some (.file c)) (ext : Text) :
    ∃ ms, IsListOf fs ext dir [dir] ms := by
  obtain ⟨n, hn⟩ := exists_fileName?_of_find hfs hfind
  obtain ⟨o, ho⟩ := fs.place_of_fileName? hn
  have hextension : Path.extension? dir = some ext ↔ (Path.splitName n).2 = some ext := by
    rw [Path.extension?, hn, Option.bind_some]
  have hspec : ∀ m, IsSpecUnder fs ext dir m ↔
      m = fs.place dir ∧ Path.extension? dir = some ext := by
    intro m
    constructor
    · intro h
      rcases h.eq_or_below hfs with rfl | ⟨hdir, -⟩
      · obtain ⟨n', hlast, hext⟩ := h.extension
        rw [ho, List.getLast?_concat] at hlast
        obtain rfl := Option.some.inj hlast
        exact ⟨rfl, hextension.mpr hext⟩
      · rw [hdir] at hc
        cases hc
    · rintro ⟨rfl, hext⟩
      exact ⟨List.prefix_rfl, ⟨c, hc⟩, n, by rw [ho, List.getLast?_concat], hextension.mp hext⟩
  by_cases hext : Path.extension? dir = some ext
  · refine ⟨[fs.place dir], List.nodup_singleton _, fun m => ?_, ?_⟩
    · rw [hspec, List.mem_singleton]
      simp [hext]
    · simp [hext, pathTo_place]
  · refine ⟨[], List.nodup_nil, fun m => ?_, ?_⟩
    · rw [hspec]
      simp [hext]
    · simp [hext]

theorem exists_list (hfs : fs.Plain) (h : filesUnder fs dir = .ok paths) (ext : Text) :
    ∃ ms, IsListOf fs ext dir paths ms := by
  unfold filesUnder at h
  cases hfind : fs.find false dir with
  | error e => rw [hfind] at h; cases h
  | ok way =>
    rw [hfind] at h
    cases hfs.find_leads hfind with
    | @entry e he =>
      cases e with
      | directory =>
        obtain rfl := Except.ok.inj h
        exact exists_list_below hfs he (filter_collected (fun _ _ => rfl) _)
      | file c =>
        obtain rfl := Except.ok.inj h
        exact exists_list_file hfs hfind he ext
      | link target => exact absurd he (hfs.no_links _ _)
    | free _ _ _ _ => cases h

/-! ### Walks in any order -/

/-- The files that walks from the directories came to, each walk in an order of its own. -/
def Walked (fs : FileSystem) (dirs : List Path) (walks : List (List Path)) : Prop :=
  List.Forall₂ (fun dir paths => ∃ listed, filesUnder fs dir = .ok listed ∧ paths.Perm listed)
    dirs walks

/-- The specs among what the walks came to, walk by walk. -/
def gathered (ext : Text) (dirs : List Path) (walks : List (List Path)) : List SpecFile :=
  (List.zipWith (fun dir paths =>
    (paths.filter (Path.extension? · == some ext)).map (SpecFile.mk dir)) dirs walks).flatten

/-- Specs in the order of their paths. -/
def inOrder (specs : List SpecFile) : List SpecFile :=
  specs.mergeSort fun a b => Path.le a.path b.path

/-- The spec at a location, found from the directory at a place in the list. -/
def specAt (fs : FileSystem) (dirs : List Path) (x : Nat × Location) : SpecFile :=
  ⟨dirs[x.1]?.getD [], pathTo fs (dirs[x.1]?.getD []) x.2⟩

/-- A walk in another order lists the same files. -/
theorem IsListOf.of_perm {paths' : List Path} {ms : List Location}
    (h : IsListOf fs ext dir paths ms) (hperm : paths'.Perm paths) :
    ∃ ms', IsListOf fs ext dir paths' ms' := by
  have hpaths : (paths'.filter (Path.extension? · == some ext)).Perm (ms.map (pathTo fs dir)) :=
    h.paths ▸ hperm.filter _
  have hsame : List.Forall₂ (fun p m => p = pathTo fs dir m) (ms.map (pathTo fs dir)) ms :=
    List.forall₂_map_left_iff.mpr (List.forall₂_same.mpr fun _ _ => rfl)
  obtain ⟨ms', hpaths', hms'⟩ := List.perm_comp_forall₂ hpaths hsame
  refine ⟨ms', hms'.nodup_iff.mpr h.nodup, fun m => hms'.mem_iff.trans (h.mem m), ?_⟩
  rwa [← List.forall₂_eq_eq_eq, List.forall₂_map_right_iff]

/-- What was gathered: a spec for each place in the list and each file below the directory there, in
the order of the places. -/
structure IsGathered (fs : FileSystem) (ext : Text) (dirs : List Path)
    (pairs : List (Nat × Location)) : Prop where
  mem : ∀ i m, (i, m) ∈ pairs ↔ ∃ dir, dirs[i]? = some dir ∧ IsSpecUnder fs ext dir m
  sorted : pairs.Pairwise fun x y => x.1 < y.1 ∨ x.1 = y.1 ∧ x.2 ≠ y.2

theorem exists_gathered (hfs : fs.Plain) (h : Walked fs dirs walks) (ext : Text) :
    ∃ pairs, IsGathered fs ext dirs pairs ∧
      gathered ext dirs walks = pairs.map (specAt fs dirs) := by
  induction h with
  | nil => exact ⟨[], ⟨by simp, .nil⟩, rfl⟩
  | @cons dir paths dirs walks hpaths _ ih =>
    obtain ⟨listed, hlisted, hperm⟩ := hpaths
    obtain ⟨ms, hms⟩ := exists_list hfs hlisted ext
    obtain ⟨ms, hms⟩ := hms.of_perm hperm
    obtain ⟨pairs, hpairs, hspecs⟩ := ih
    refine ⟨ms.map (Prod.mk 0) ++ pairs.map fun x => (x.1 + 1, x.2), ⟨fun i m => ?_, ?_⟩, ?_⟩
    · cases i with
      | zero => simp [hms.mem]
      | succ i => simp [hpairs.mem]
    · refine List.pairwise_append.mpr ⟨?_, ?_, ?_⟩
      · exact List.pairwise_map.mpr (hms.nodup.imp fun hne => .inr ⟨rfl, hne⟩)
      · refine List.pairwise_map.mpr (hpairs.sorted.imp fun hxy => ?_)
        simpa using hxy
      · intro x hx y hy
        obtain ⟨m, -, rfl⟩ := List.mem_map.mp hx
        obtain ⟨y, -, rfl⟩ := List.mem_map.mp hy
        exact .inl (Nat.succ_pos _)
    · have hcons : gathered ext (dir :: dirs) (paths :: walks) =
          (paths.filter (Path.extension? · == some ext)).map (SpecFile.mk dir) ++
            gathered ext dirs walks := rfl
      rw [hcons, hms.paths, hspecs, List.map_append, List.map_map, List.map_map, List.map_map]
      rfl

/-- The specs in order, as pairs: one for each place in the list of directories and each file below
the directory there, ordered by path, and among equal paths by place. -/
structure Listing (fs : FileSystem) (ext : Text) (dirs : List Path)
    (pairs : List (Nat × Location)) : Prop where
  nodup : pairs.Nodup
  mem : ∀ i m, (i, m) ∈ pairs ↔ ∃ dir, dirs[i]? = some dir ∧ IsSpecUnder fs ext dir m
  sorted : pairs.Pairwise fun x y =>
    Path.le (specAt fs dirs x).path (specAt fs dirs y).path = true ∧
      ((specAt fs dirs x).path.components = (specAt fs dirs y).path.components → x.1 < y.1)

/-- There is one such list only. -/
theorem Listing.unique {pairs pairs' : List (Nat × Location)} (h : Listing fs ext dirs pairs)
    (h' : Listing fs ext dirs pairs') : pairs = pairs' := by
  have hperm : pairs.Perm pairs' := (List.perm_ext_iff_of_nodup h.nodup h'.nodup).mpr
    fun ⟨i, m⟩ => (h.mem i m).trans (h'.mem i m).symm
  refine hperm.eq_of_pairwise (fun x y _ _ hxy hyx => ?_) h.sorted h'.sorted
  -- neither of two entries comes before the other one
  have heq := Path.le_and_le_iff.mp ⟨hxy.1, hyx.1⟩
  exact absurd (hxy.2 heq) (hyx.2 heq.symm).not_gt

/-- The order of entries by path. -/
def pathLE (fs : FileSystem) (dirs : List Path) (x y : Nat × Location) : Bool :=
  Path.le (specAt fs dirs x).path (specAt fs dirs y).path

theorem trans_pathLE (fs : FileSystem) (dirs : List Path) (x y z : Nat × Location)
    (hxy : pathLE fs dirs x y = true) (hyz : pathLE fs dirs y z = true) :
    pathLE fs dirs x z = true :=
  Path.trans_le _ _ _ hxy hyz

theorem pathLE_or_pathLE (fs : FileSystem) (dirs : List Path) (x y : Nat × Location) :
    (pathLE fs dirs x y || pathLE fs dirs y x) = true :=
  Path.le_or_le _ _

/-- Sorting what was gathered gives the list. -/
theorem exists_listing (hfs : fs.Plain) (h : Walked fs dirs walks) (ext : Text) :
    ∃ pairs, Listing fs ext dirs pairs ∧
      inOrder (gathered ext dirs walks) = pairs.map (specAt fs dirs) := by
  obtain ⟨pairs, hpairs, hspecs⟩ := exists_gathered hfs h ext
  have hperm := List.mergeSort_perm pairs (pathLE fs dirs)
  have hnodup : pairs.Nodup := hpairs.sorted.imp fun hxy heq => by
    rw [heq] at hxy
    rcases hxy with hlt | ⟨-, hne⟩
    · exact lt_irrefl _ hlt
    · exact hne rfl
  have hmem : ∀ i m, (i, m) ∈ pairs.mergeSort (pathLE fs dirs) ↔
      ∃ dir, dirs[i]? = some dir ∧ IsSpecUnder fs ext dir m :=
    fun i m => hperm.mem_iff.trans (hpairs.mem i m)
  refine ⟨pairs.mergeSort (pathLE fs dirs), ⟨hperm.nodup_iff.mpr hnodup, hmem, ?_⟩, ?_⟩
  · have hstable := pairwise_mergeSort_stable (trans_pathLE fs dirs) (pathLE_or_pathLE fs dirs)
      hpairs.sorted
    refine hstable.imp_of_mem fun {x y} hx hy hxy => ⟨hxy.1, fun heq => ?_⟩
    rcases hxy.2 (Path.le_and_le_iff.mpr heq).2 with hlt | ⟨hplace, hne⟩
    · exact hlt
    · -- entries of the same walk have different paths
      obtain ⟨i, m⟩ := x
      obtain ⟨j, m'⟩ := y
      obtain rfl : i = j := hplace
      obtain ⟨dir, hdir, hspec⟩ := (hmem _ _).mp hx
      obtain ⟨dir', hdir', hspec'⟩ := (hmem _ _).mp hy
      obtain rfl : dir = dir' := Option.some.inj (hdir.symm.trans hdir')
      simp only [specAt, hdir, Option.getD_some] at heq
      exact absurd (hspec.eq_of_components hfs hspec' heq) hne
  · rw [inOrder, hspecs, List.map_mergeSort (s := fun a b => Path.le a.path b.path)]
    exact fun _ _ _ _ => rfl

/-! ### What is discovered -/

theorem discover_eq (h : List.Forall₂ (fun dir paths => filesUnder fs dir = .ok paths) dirs walks)
    (ext : Text) : discover fs dirs ext = .ok (inOrder (gathered ext dirs walks)) := by
  have hmapM : dirs.mapM (under fs ext) = .ok (List.zipWith (fun dir paths =>
      (paths.filter (Path.extension? · == some ext)).map (SpecFile.mk dir)) dirs walks) := by
    induction h with
    | nil => rfl
    | @cons dir paths dirs walks hpaths _ ih =>
      rw [List.mapM_cons, ih, under, hpaths]
      rfl
  rw [discover, hmapM]
  rfl

/-- The same entries in another order. -/
structure Reordered (fs fs' : FileSystem) : Prop where
  entries : fs'.entries.Perm fs.entries
  workingDirectory : fs'.workingDirectory = fs.workingDirectory

theorem Reordered.get?_eq (h : Reordered fs fs') (l : Location) : fs'.get? l = fs.get? l := by
  by_cases hl : l = []
  · rw [hl]
    rfl
  · refine Option.ext fun e => ⟨fun he => ?_, fun he => ?_⟩
    · exact get?_of_mem_entries hl (h.entries.mem_iff.mp (mem_entries hl he))
    · exact get?_of_mem_entries hl (h.entries.mem_iff.mpr (mem_entries hl he))

theorem Reordered.plain (h : Reordered fs fs') (hfs : fs.Plain) : fs'.Plain where
  no_links l target := by
    rw [h.get?_eq]
    exact hfs.no_links l target
  parents l n e := by
    rw [h.get?_eq, h.get?_eq]
    exact hfs.parents l n e
  names l e hmem := hfs.names l e (h.entries.mem_iff.mp hmem)

/-- A walk through the same entries in another order comes to the same files. -/
theorem Reordered.filesUnder (h : Reordered fs fs') (hfs : fs.Plain)
    (hpaths : filesUnder fs dir = .ok paths) :
    ∃ paths', SpecFile.filesUnder fs' dir = .ok paths' ∧ paths'.Perm paths := by
  unfold SpecFile.filesUnder at hpaths ⊢
  cases hfind : fs.find false dir with
  | error e => rw [hfind] at hpaths; cases hpaths
  | ok way =>
    rw [hfind] at hpaths
    cases hfs.find_leads hfind with
    | @entry e he =>
      rw [hfs.find_mono (h.plain hfs) h.workingDirectory (fun l hl => (h.get?_eq l).trans hl) hfind
        ((h.get?_eq _).trans he)]
      cases e with
      | directory =>
        obtain rfl := Except.ok.inj hpaths
        exact ⟨_, rfl, (h.entries.filterMap _).filterMap _⟩
      | file c => exact ⟨paths, hpaths, .refl _⟩
      | link target => exact absurd he (hfs.no_links _ _)
    | free _ _ _ _ => cases hpaths

theorem Reordered.walked (h : Reordered fs fs') (hfs : fs.Plain)
    (hwalks : List.Forall₂ (fun dir paths => SpecFile.filesUnder fs dir = .ok paths) dirs walks) :
    ∃ walks', List.Forall₂ (fun dir paths => SpecFile.filesUnder fs' dir = .ok paths) dirs walks' ∧
      Walked fs dirs walks' := by
  induction hwalks with
  | nil => exact ⟨[], .nil, .nil⟩
  | @cons dir paths dirs walks hpaths _ ih =>
    obtain ⟨paths', hpaths', hperm⟩ := h.filesUnder hfs hpaths
    obtain ⟨walks', hwalks', hwalked⟩ := ih
    exact ⟨paths' :: walks', .cons hpaths' hwalks', .cons ⟨paths, hpaths, hperm⟩ hwalked⟩

/-- Discovery does not depend on the order of walks: it lists one spec for each place in the list of
directories and each file with the extension at or below the directory there, ordered by path and,
where paths are equal, by place. -/
theorem discover_in_order (hfs : fs.Plain)
    (hwalks : ∀ dir ∈ dirs, ∃ paths, filesUnder fs dir = .ok paths) (ext : Text) :
    ∃ specs pairs, discover fs dirs ext = .ok specs ∧ specs = pairs.map (specAt fs dirs) ∧
      Listing fs ext dirs pairs ∧
      (∀ x ∈ pairs, fs.place (specAt fs dirs x).path = x.2) ∧
      (∀ walks, Walked fs dirs walks → inOrder (gathered ext dirs walks) = specs) ∧
      ∀ fs', Reordered fs fs' → discover fs' dirs ext = .ok specs := by
  obtain ⟨walks, hlisted⟩ : ∃ walks : List (List Path),
      List.Forall₂ (fun dir paths => filesUnder fs dir = .ok paths) dirs walks := by
    refine ⟨dirs.map fun dir => (filesUnder fs dir).toOption.getD [], ?_⟩
    rw [List.forall₂_map_right_iff, List.forall₂_same]
    intro dir hdir
    obtain ⟨paths, hpaths⟩ := hwalks dir hdir
    rw [hpaths]
    rfl
  have hwalked : Walked fs dirs walks :=
    hlisted.imp fun dir paths hpaths => ⟨paths, hpaths, .refl _⟩
  obtain ⟨pairs, hpairs, hspecs⟩ := exists_listing hfs hwalked ext
  have hany : ∀ walks, Walked fs dirs walks →
      inOrder (gathered ext dirs walks) = pairs.map (specAt fs dirs) := by
    intro walks hwalked
    obtain ⟨pairs', hpairs', hspecs'⟩ := exists_listing hfs hwalked ext
    rw [hspecs', hpairs'.unique hpairs]
  refine ⟨_, pairs, discover_eq hlisted ext, hspecs, hpairs, fun ⟨i, m⟩ hmem => ?_,
    fun walks hwalked => (hany walks hwalked).trans hspecs.symm, fun fs' h => ?_⟩
  · obtain ⟨dir, hdir, hspec⟩ := (hpairs.mem i m).mp hmem
    simp only [specAt, hdir, Option.getD_some]
    exact hspec.place_pathTo hfs
  · obtain ⟨walks', hlisted', hwalked'⟩ := h.walked hfs hlisted
    rw [discover_eq hlisted' ext, hany walks' hwalked', hspecs]

/-- A file system with a spec in a directory, another one in a directory below, and a file that is
no spec. -/
def nestedDirectories : FileSystem where
  entries := [(["s".toList], .directory), (["s".toList, "deep".toList], .directory),
    (["s".toList, "deep".toList, "b.carinata".toList], .file (.text [])),
    (["s".toList, "notes.txt".toList], .file (.text [])),
    (["s".toList, "a.carinata".toList], .file (.text []))]
  workingDirectory := []
  nodup := by decide

theorem plain_nestedDirectories : nestedDirectories.Plain := plain_of_entries (by decide)

theorem discover_in_order_nested : ∃ specs pairs,
    discover nestedDirectories ["s/deep".toList, "s".toList, "s/deep/b.carinata".toList, "s".toList]
      "carinata".toList = .ok specs ∧
    specs = [⟨"s".toList, "s/a.carinata".toList⟩, ⟨"s".toList, "s/a.carinata".toList⟩,
      ⟨"s/deep".toList, "s/deep/b.carinata".toList⟩, ⟨"s".toList, "s/deep/b.carinata".toList⟩,
      ⟨"s/deep/b.carinata".toList, "s/deep/b.carinata".toList⟩,
      ⟨"s".toList, "s/deep/b.carinata".toList⟩] ∧
    Listing nestedDirectories "carinata".toList
      ["s/deep".toList, "s".toList, "s/deep/b.carinata".toList, "s".toList] pairs ∧
    specs = pairs.map (specAt nestedDirectories
      ["s/deep".toList, "s".toList, "s/deep/b.carinata".toList, "s".toList]) := by
  have hfound : discover nestedDirectories
      ["s/deep".toList, "s".toList, "s/deep/b.carinata".toList, "s".toList] "carinata".toList =
      .ok [⟨"s".toList, "s/a.carinata".toList⟩, ⟨"s".toList, "s/a.carinata".toList⟩,
        ⟨"s/deep".toList, "s/deep/b.carinata".toList⟩, ⟨"s".toList, "s/deep/b.carinata".toList⟩,
        ⟨"s/deep/b.carinata".toList, "s/deep/b.carinata".toList⟩,
        ⟨"s".toList, "s/deep/b.carinata".toList⟩] := by
    cbv
  have hwalks : ∀ dir ∈ ["s/deep".toList, "s".toList, "s/deep/b.carinata".toList, "s".toList],
      ∃ paths, filesUnder nestedDirectories dir = .ok paths := by
    have hdeep : filesUnder nestedDirectories "s/deep".toList =
        .ok ["s/deep/b.carinata".toList] := by cbv
    have hs : filesUnder nestedDirectories "s".toList = .ok ["s/deep/b.carinata".toList,
        "s/notes.txt".toList, "s/a.carinata".toList] := by cbv
    have hfile : filesUnder nestedDirectories "s/deep/b.carinata".toList =
        .ok ["s/deep/b.carinata".toList] := by cbv
    simp only [List.forall_mem_cons, List.not_mem_nil, false_implies, implies_true, and_true]
    exact ⟨⟨_, hdeep⟩, ⟨_, hs⟩, ⟨_, hfile⟩, ⟨_, hs⟩⟩
  obtain ⟨specs, pairs, hdiscover, hpairs, hlisting, -⟩ :=
    discover_in_order plain_nestedDirectories hwalks "carinata".toList
  exact ⟨specs, pairs, hdiscover, Except.ok.inj (hdiscover.symm.trans hfound), hlisting, hpairs⟩

end SpecFile

end BlockSpec
